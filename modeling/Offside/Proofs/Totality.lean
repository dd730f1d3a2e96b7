import Offside.Proofs.ReachedStates

/-!
# The parser is total

Whatever the tokens are, the parser comes to an end, stands on one of the tokens wherever an action has
left it, has moved on behind a statement, and never sees what is behind the first end of the file.
-/

namespace Offside

set_option autoImplicit false

open Execution TokenStream

variable {tokens : List Token}

/-! ## The place in the stream -/

namespace TokenStream

variable {all : List Token} {s s' : TokenStream}

/-- The stream has what is left of the tokens from its position on. -/
structure Along (all : List Token) (s : TokenStream) : Prop where
  tokens_eq : all.drop s.position = s.tokens
  endsAhead : s.EndsAhead

theorem tokens_ofTokens (tokens : List Token) : (ofTokens tokens).tokens = closed tokens := by
  obtain ⟨t, ht, -⟩ := exists_endOfFile_closed tokens
  unfold ofTokens
  split
  · next hclosed =>
    rw [hclosed] at ht
    cases ht
  · next hclosed => exact hclosed.symm

theorem along_ofTokens (tokens : List Token) : (ofTokens tokens).Along (closed tokens) := by
  refine ⟨?_, endsAhead_ofTokens tokens⟩
  have hposition : (ofTokens tokens).position = 0 := by
    unfold ofTokens
    split <;> rfl
  rw [hposition, List.drop_zero, tokens_ofTokens]

theorem advance_of_endOfFile (hk : s.current.kind = .endOfFile) : s.advance = s := by
  unfold TokenStream.advance
  split
  · rfl
  · rw [if_pos hk]

theorem position_advance (hs : s.EndsAhead) (hk : s.current.kind ≠ .endOfFile) :
    s.advance.position = s.position + 1 := by
  obtain ⟨position, current, _ | ⟨next, rest⟩⟩ := s
  · obtain ⟨t, ht, hend⟩ := hs
    cases List.mem_singleton.mp ht
    exact absurd hend hk
  · simp only [TokenStream.advance]
    rw [if_neg hk]

theorem Along.advance (h : s.Along all) : s.advance.Along all := by
  refine ⟨?_, h.endsAhead.advance⟩
  by_cases hk : s.current.kind = .endOfFile
  · rw [advance_of_endOfFile hk]
    exact h.tokens_eq
  · have htokens := h.tokens_eq.trans (tokens_advance h.endsAhead hk)
    rw [position_advance h.endsAhead hk, ← List.tail_drop, htokens, List.tail_cons]

theorem Along.current (h : s.Along all) : all[s.position]? = some s.current := by
  rw [← List.head?_drop, h.tokens_eq]
  rfl

/-- Whoever has fewer tokens ahead is further on. -/
theorem Along.position_lt (h : s.Along all) (h' : s'.Along all)
    (hlt : s'.tokens.length < s.tokens.length) : s.position < s'.position := by
  rw [← h.tokens_eq, ← h'.tokens_eq, List.length_drop, List.length_drop] at hlt
  omega

/-- A stream is like itself as long as it runs along the tokens. -/
theorem coupling_along (all : List Token) : Coupling fun s t => s = t ∧ s.Along all where
  current := by
    rintro s _ ⟨rfl, -⟩
    rfl
  advance := by
    rintro s _ ⟨rfl, h⟩
    exact ⟨rfl, h.advance⟩
  endsAhead := by
    rintro s _ ⟨rfl, h⟩
    exact ⟨h.endsAhead, h.endsAhead⟩

/-- Up to an end of the file the two streams have the same tokens. -/
def SameToEnd (s s' : TokenStream) : Prop :=
  ∃ ts t us us', t.kind = .endOfFile ∧ s.tokens = ts ++ t :: us ∧ s'.tokens = ts ++ t :: us'

theorem SameToEnd.current (h : s.SameToEnd s') : s.current = s'.current := by
  obtain ⟨ts, t, us, us', -, hs, hs'⟩ := h
  cases ts with
  | nil => exact (List.cons.inj hs).1.trans (List.cons.inj hs').1.symm
  | cons u ts => exact (List.cons.inj hs).1.trans (List.cons.inj hs').1.symm

theorem SameToEnd.endsAhead (h : s.SameToEnd s') : s.EndsAhead ∧ s'.EndsAhead := by
  obtain ⟨ts, t, us, us', hk, hs, hs'⟩ := h
  refine ⟨⟨t, ?_, hk⟩, t, ?_, hk⟩
  · rw [hs]
    exact List.mem_append_cons_self
  · rw [hs']
    exact List.mem_append_cons_self

theorem SameToEnd.advance (h : s.SameToEnd s') : s.advance.SameToEnd s'.advance := by
  by_cases hk : s.current.kind = .endOfFile
  · rw [advance_of_endOfFile hk, advance_of_endOfFile (h.current ▸ hk)]
    exact h
  · obtain ⟨hends, hends'⟩ := h.endsAhead
    have htokens := tokens_advance hends hk
    have htokens' := tokens_advance hends' (h.current ▸ hk)
    obtain ⟨ts, t, us, us', ht, hs, hs'⟩ := h
    cases ts with
    | nil =>
      obtain rfl : s.current = t := (List.cons.inj hs).1
      exact absurd ht hk
    | cons u ts =>
      rw [htokens] at hs
      rw [htokens'] at hs'
      exact ⟨ts, t, us, us', ht, (List.cons.inj hs).2, (List.cons.inj hs').2⟩

theorem coupling_sameToEnd : Coupling SameToEnd where
  current _ _ h := h.current
  advance _ _ h := h.advance
  endsAhead _ _ h := h.endsAhead

/-- What is put behind the tokens comes behind every end of the file. -/
theorem closed_append (before after : List Token) (t : Token) :
    ∃ more, closed (before ++ t :: after) = before ++ t :: more := by
  unfold closed
  split
  · next hlast => simp at hlast
  · split
    · exact ⟨after, rfl⟩
    · exact ⟨after ++ [.endAt _], by rw [List.append_assoc, List.cons_append]⟩

theorem sameToEnd_ofTokens {t : Token} (hk : t.kind = .endOfFile) (before after after' : List Token) :
    (ofTokens (before ++ t :: after)).SameToEnd (ofTokens (before ++ t :: after')) := by
  obtain ⟨more, hmore⟩ := closed_append before after t
  obtain ⟨more', hmore'⟩ := closed_append before after' t
  refine ⟨before, t, more, more', hk, ?_, ?_⟩
  · rw [tokens_ofTokens, hmore]
  · rw [tokens_ofTokens, hmore']

end TokenStream

/-! ## Wherever the parser comes -/

theorem Reached.along {p : Parser} (h : Reached tokens p) : p.stream.Along (closed tokens) := by
  induction h with
  | start => exact along_ofTokens tokens
  | after _ hx ih =>
    obtain ⟨t, ⟨-, ht⟩, -⟩ := (hx.couples (coupling_along _) _ _ ⟨_, ⟨rfl, ih⟩, rfl⟩).stateAfter
    exact ht

theorem ReachedExpression.along {e : Expression} (h : ReachedExpression tokens e) :
    e.stream.Along (closed tokens) := by
  induction h with
  | start hp => exact hp.along
  | after _ hx ih =>
    obtain ⟨t, ⟨-, ht⟩, -⟩ := (hx.couples (coupling_along _) _ _ ⟨_, ⟨rfl, ih⟩, rfl⟩).stateAfter
    exact ht

namespace Parse

theorem ReadsBlocks.closesBlock {read : Nat → Parse Scope} (h : ReadsBlocks read) :
    ClosesBlock read := by
  cases h with
  | block => exact closesBlock_block
  | blockUpTo depth => exact closesBlock_blockUpTo depth

theorem ReadsBlocks.passes {read : Nat → Parse Scope} (h : ReadsBlocks read) (level : Nat) :
    PassesBlock level (read level) := by
  cases h with
  | block => exact block_passes level
  | blockUpTo depth => exact blockUpTo_passes depth level

/-- A statement that succeeds takes the parser forward. -/
theorem statement_forward {p p' : Parser} {n : Node} {read : Nat → Parse Scope} (hp : Reached tokens p)
    (hread : ReadsBlocks read) (h : statement (bodyOf read) p = .ok n p') :
    p.stream.position < p'.stream.position := by
  have hp' := hp.after (.statement hread)
  rw [h] at hp'
  have hbeyond := passesStatement hread.closesBlock p n p' h
  exact hp.along.position_lt hp'.along (hbeyond.length_lt hp.along.endsAhead)

/-- The loops of the parser end by themselves: none of them comes to the bound on its rounds. -/
structure LoopsEnd : Prop where
  steps : ∀ symbols, Unrolls Expression.stream (Expression.stepRound symbols)
    fun _ e => Expression.steps symbols e.stream.tokens.length e
  parameters : Unrolls Parser.stream parameterRound fun _ p => parametersUpTo p.stream.tokens.length p
  comma : Unrolls Parser.stream seekRound fun depth p => seekComma p.stream.tokens.length depth p
  lines : ∀ read, ReadsBlocks read → ∀ level,
    Unrolls Parser.stream (lineRound (statement (bodyOf read)) (read (level + 1)) level) fun before p =>
      lines (statement (bodyOf read)) (read (level + 1)) level p.stream.tokens.length before p
  blocks : Unrolls Parser.stream blockRound block

theorem loopsEnd : LoopsEnd where
  steps _ := Expression.steps_unrolls
  parameters := parametersUpTo_unrolls
  comma := seekComma_unrolls
  lines _ h level := lines_unrolls (passesStatement h.closesBlock) (h.passes (level + 1))
  blocks := block_unrolls

end Parse

/-! ## Whole programs -/

/-- The tree of a whole program, with a way to read its blocks. -/
def parseWith (block : Nat → Parse Scope) (tokens : List Token) : Except Diagnostic Scope :=
  match (do
    Parse.openFrame
    block 0 : Parse Scope) (.ofTokens tokens statementKeywords) with
  | .ok scope _ => .ok scope
  | .error d _ => .error d

theorem parseWith_block (tokens : List Token) : parseWith Parse.block tokens = parse tokens := rfl

theorem parse_unrolls {n : Nat} (hn : (closed tokens).length ≤ n) (stuck : Nat → Parse Scope) :
    parseWith (Parse.blockRound^[n] stuck) tokens = parse tokens := by
  rw [← tokens_ofTokens] at hn
  have hblock := Parse.block_unrolls (.atStart tokens) (endsAhead_ofTokens tokens) n hn stuck 0
  rw [← parseWith_block]
  unfold parseWith Parse.openFrame
  rw [modify_bind, modify_bind]
  change (match (Parse.blockRound^[n] stuck) 0 (.atStart tokens) with
    | .ok scope _ => Except.ok scope
    | .error d _ => .error d) = _
  rw [hblock]
  rfl

theorem parse_eq_of_sameToEnd {tokens' : List Token}
    (h : (ofTokens tokens).SameToEnd (ofTokens tokens')) : parse tokens = parse tokens' := by
  have hblock := Parse.couples_block coupling_sameToEnd 0 (.atStart tokens) (.atStart tokens')
    ⟨_, h, rfl⟩
  rw [parse_eq, parse_eq]
  generalize Parse.block 0 (.atStart tokens) = r at hblock
  generalize Parse.block 0 (.atStart tokens') = r' at hblock
  cases hblock with
  | ok => rfl
  | error => rfl

/--
The parser comes to an end with a tree or an error, without ever being stopped by a bound; on its way it
stands on a token, and further on behind each statement; what is behind an end of the file makes no
difference.
-/
theorem parse_total (tokens : List Token) :
    ((∃ s, parse tokens = .ok s) ∨ ∃ d, parse tokens = .error d) ∧
    (∀ n, (closed tokens).length ≤ n → ∀ stuck,
      parseWith (Parse.blockRound^[n] stuck) tokens = parse tokens) ∧
    Parse.LoopsEnd ∧
    (∀ p, Reached tokens p → p.stream.EndsAhead ∧
      (closed tokens)[p.stream.position]? = some p.stream.current ∧
      ∀ read, Parse.ReadsBlocks read → ∀ n p', Parse.statement (Parse.bodyOf read) p = .ok n p' →
        p.stream.position < p'.stream.position) ∧
    (∀ e, ReachedExpression tokens e → e.stream.EndsAhead ∧
      (closed tokens)[e.stream.position]? = some e.stream.current) ∧
    ∀ before t after after', t.kind = .endOfFile → tokens = before ++ t :: after →
      parse tokens = parse (before ++ t :: after') := by
  refine ⟨?_, fun n hn stuck => parse_unrolls hn stuck, Parse.loopsEnd, fun p hp => ?_,
    fun e he => ⟨he.along.endsAhead, he.along.current⟩, ?_⟩
  · cases parse tokens with
    | ok s => exact .inl ⟨s, rfl⟩
    | error d => exact .inr ⟨d, rfl⟩
  · exact ⟨hp.along.endsAhead, hp.along.current,
      fun read hread n p' h => Parse.statement_forward hp hread h⟩
  · rintro before t after after' hk rfl
    exact parse_eq_of_sameToEnd (sameToEnd_ofTokens hk before after after')

/-- A declaration that stands twice, with an end of the file in between: it is read once. -/
theorem parse_total_twice :
    ∃ ts n p', tokenize "x := 1\n" "" = .ok ts ∧ Reached (ts ++ ts) (.atStart (ts ++ ts)) ∧
      Parse.statement Parse.body (.atStart (ts ++ ts)) = .ok n p' ∧ 0 < p'.stream.position ∧
      parse (ts ++ ts) = parse ts ∧ (parse ts).toOption.map (·.frame.names) = some ["x"] := by
  have hruns : ((tokenize "x := 1\n" "").map fun ts =>
      (Parse.succeeds (Parse.statement Parse.body) (.atStart (ts ++ ts)), ts.getLast?.map Token.kind,
        (parse ts).toOption.map (·.frame.names))).toOption = some (true, some .endOfFile, some ["x"]) := by
    decide +kernel
  obtain ⟨ts, hts, hruns⟩ := exists_ok_of_map hruns
  simp only [Prod.mk.injEq] at hruns
  obtain ⟨hstatement, hlast, hnames⟩ := hruns
  obtain ⟨n, p', hn⟩ := Parse.exists_ok_of_succeeds hstatement
  obtain ⟨t, ht, hk⟩ := Option.map_eq_some_iff.mp hlast
  obtain ⟨before, hbefore⟩ := List.getLast?_eq_some_iff.mp ht
  obtain ⟨-, -, -, hreached, -, hends⟩ := parse_total (ts ++ ts)
  have hstart : Reached (ts ++ ts) (.atStart (ts ++ ts)) := Reached.start.after .openFrame
  have hforward := (hreached _ hstart).2.2 _ .block n p' hn
  have hbehind : ts ++ ts = before ++ t :: ts :=
    calc ts ++ ts = before ++ [t] ++ ts := congrArg (· ++ ts) hbefore
      _ = before ++ t :: ts := (List.append_cons before t ts).symm
  refine ⟨ts, n, p', hts, hstart, hn, Nat.zero_lt_of_lt hforward, ?_, hnames⟩
  rw [hends before t ts [] hk hbehind, ← hbefore]

end Offside
