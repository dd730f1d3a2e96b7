import Offside.Proofs.Likeness
import Offside.Proofs.LineReading

/-!
# Two runs of the parser

What may differ between the tokens of two runs: the places of the tokens, the level that all lines begin
at, and what stands behind the text of the first run, if the second one goes on there. Up to the end of its
text the first run then decides nothing by what the second one has behind it.
-/

namespace Offside

set_option autoImplicit false

/-- How the second of two runs may differ from the first one. -/
structure Variation where
  /-- Where words stand. -/
  words : Location → Location → Prop
  /-- Where lines and the text end. -/
  stops : Location → Location → Prop
  stops_of_words : ∀ {l m : Location}, words l m → stops l m
  deeper : Nat
  /-- Whether the second text may go on where the first one ends. -/
  goesOn : Prop

namespace Variation

variable (v : Variation)

/-- The same token in the two runs. -/
structure Pair (t u : Token) : Prop where
  kind : u.kind = t.kind
  type : u.type = t.type
  keyword : u.keyword = t.keyword
  /-- At the end of the text nothing is left to be indented. -/
  level : t.kind ≠ .endOfFile ∨ t.keyword ≠ none → u.level = t.level + v.deeper
  text : t.endsStatement = false → u.text = t.text
  place : v.stops t.location u.location
  word : t.endsStatement = false ∨ t.keyword ≠ none → v.words t.location u.location

/-- The tokens ahead in the two runs. -/
inductive Shares : List Token → List Token → Prop where
  | nil : Shares [] []
  | cons {t u : Token} {ts us : List Token} : v.Pair t u → Shares ts us → Shares (t :: ts) (u :: us)
  | ends {t : Token} {us : List Token} : v.goesOn → t.kind = .endOfFile → us ≠ [] → Shares [t] us

/-- The tokens ahead, where the first run is not at its end. -/
structure Within (ts us : List Token) : Prop where
  shares : v.Shares ts us
  source : v.goesOn → (∃ all, Lined none all ∧ ts <:+ all) ∧ ∀ t ∈ ts.head?, t.kind ≠ .endOfFile

end Variation

variable {v : Variation}

namespace Variation.Pair

variable {t u : Token}

theorem endsStatement (h : v.Pair t u) : u.endsStatement = t.endsStatement := by
  rw [Token.endsStatement, Token.endsStatement, h.kind]

theorem is (h : v.Pair t u) {kind : Token.Kind} (hs : kind ≠ .endOfStatement)
    (hf : kind ≠ .endOfFile) (text : String) : u.is kind text = t.is kind text := by
  unfold Token.is
  rw [h.kind]
  by_cases hk : t.kind = kind
  · rw [h.text (by simp [Token.endsStatement, hk, hs, hf])]
  · rw [beq_eq_false_iff_ne.mpr hk, Bool.false_and, Bool.false_and]

theorem isDelimiter (h : v.Pair t u) (text : String) : u.isDelimiter text = t.isDelimiter text :=
  @is v t u h .delimiter nofun nofun text

theorem isOperator (h : v.Pair t u) (text : String) : u.isOperator text = t.isOperator text :=
  @is v t u h .operator nofun nofun text

theorem isKeyword (h : v.Pair t u) (keyword : Keyword) : u.isKeyword keyword = t.isKeyword keyword := by
  rw [Token.isKeyword, Token.isKeyword, h.keyword]

end Variation.Pair

/-! ## Looking ahead -/

theorem Lined.suffix {line : Option Nat} {ts us : List Token} (h : Lined line ts) (hs : us <:+ ts)
    (hne : us ≠ []) : ∃ line', Lined line' us := by
  induction h with
  | done hk hkeyword hl =>
    rcases List.suffix_cons_iff.mp hs with rfl | hs
    · exact ⟨_, .done hk hkeyword hl⟩
    · exact absurd (List.suffix_nil.mp hs) hne
  | first hw hr ih =>
    rcases List.suffix_cons_iff.mp hs with rfl | hs
    · exact ⟨_, .first hw hr⟩
    · exact ih hs
  | word hw hr ih =>
    rcases List.suffix_cons_iff.mp hs with rfl | hs
    · exact ⟨_, .word hw hr⟩
    · exact ih hs
  | stop hk hkeyword hr ih =>
    rcases List.suffix_cons_iff.mp hs with rfl | hs
    · exact ⟨_, @Lined.stop _ _ hk hkeyword hr⟩
    · exact ih hs

/-- Behind a word the end of the text is not the next token. -/
theorem Lined.endOfFile_of_word {line : Option Nat} {t : Token} {ts : List Token}
    (h : Lined line (t :: ts)) (ht : t.endsStatement = false) :
    ∀ u ∈ ts.head?, u.kind ≠ .endOfFile := by
  have hline : ∀ {level : Nat} {ts : List Token}, Lined (some level) ts →
      ∀ u ∈ ts.head?, u.kind ≠ .endOfFile := by
    rintro level ts h u hu
    cases h with
    | word hw =>
      obtain rfl := Option.some.inj hu
      have := hw.not_endsStatement
      rintro hk
      simp [Token.endsStatement, hk] at this
    | stop hk =>
      obtain rfl := Option.some.inj hu
      simp [hk]
  cases h with
  | done hk => simp [Token.endsStatement, hk] at ht
  | first _ hr | word _ hr => exact hline hr
  | stop hk => simp [Token.endsStatement, hk] at ht

namespace Variation.Within

variable {t u : Token} {ts us : List Token}

theorem cons (h : v.Within (t :: ts) us) :
    ∃ u us', us = u :: us' ∧ v.Pair t u ∧ v.Shares ts us' := by
  obtain ⟨hshares, hsource⟩ := h
  cases hshares with
  | ends hgoes hk => exact absurd hk ((hsource hgoes).2 t rfl)
  | cons hpair hmore => exact ⟨_, _, rfl, hpair, hmore⟩

theorem pair (h : v.Within (t :: ts) (u :: us)) : v.Pair t u := by
  obtain ⟨_, _, hus, hpair, -⟩ := h.cons
  rwa [(List.cons.inj hus).1]

theorem tail (h : v.Within (t :: ts) (u :: us)) (ht : v.goesOn → t.endsStatement = false) :
    v.Within ts us := by
  obtain ⟨_, _, hus, -, hmore⟩ := h.cons
  obtain ⟨rfl, rfl⟩ := List.cons.inj hus
  refine ⟨hmore, fun hgoes => ?_⟩
  obtain ⟨⟨all, hall, hsuffix⟩, -⟩ := h.source hgoes
  obtain ⟨_, hlined⟩ := hall.suffix hsuffix (List.cons_ne_nil _ _)
  exact ⟨⟨all, hall, (List.suffix_cons t ts).trans hsuffix⟩, hlined.endOfFile_of_word (ht hgoes)⟩

theorem cases (h : v.Within ts us) :
    ts = [] ∧ us = [] ∨ ∃ t u ts' us', ts = t :: ts' ∧ us = u :: us' := by
  cases ts with
  | nil =>
    cases h.shares with
    | nil => exact .inl ⟨rfl, rfl⟩
  | cons t ts =>
    obtain ⟨u, us, rfl, -⟩ := h.cons
    exact .inr ⟨t, u, ts, us, rfl, rfl⟩

theorem hasComma (h : v.Within ts us) (depth : Nat) :
    TokenStream.hasComma depth us = TokenStream.hasComma depth ts := by
  induction ts generalizing us depth with
  | nil =>
    cases h.shares with
    | nil => rfl
  | cons t ts ih =>
    obtain ⟨u, us, rfl, hpair, -⟩ := h.cons
    unfold TokenStream.hasComma
    rw [hpair.endsStatement, hpair.isDelimiter, hpair.isDelimiter, hpair.isDelimiter]
    cases ht : t.endsStatement with
    | true => rfl
    | false => simp only [ih (h.tail fun _ => ht)]

end Variation.Within

/-- Streams of tokens ahead in the two runs, the first one not at its end. -/
def Variation.Streams (v : Variation) (s s' : TokenStream) : Prop := v.Within s.tokens s'.tokens

namespace Variation.Streams

variable {s s' : TokenStream}

theorem current (h : v.Streams s s') : v.Pair s.current s'.current := h.pair

theorem rest (h : v.Streams s s') (hw : s.current.endsStatement = false) :
    v.Within s.rest s'.rest :=
  h.tail fun _ => hw

theorem startsDeclaration (h : v.Streams s s') : s'.startsDeclaration = s.startsDeclaration := by
  unfold TokenStream.startsDeclaration
  rw [h.current.kind]
  by_cases hk : s.current.kind = .identifier
  · have hrest := h.rest (by simp [Token.endsStatement, hk])
    rcases hrest.cases with ⟨hs, hs'⟩ | ⟨t, u, ts, us, hs, hs'⟩
    · rw [hs, hs']
    · rw [hs, hs'] at hrest ⊢
      dsimp only
      rw [hrest.pair.isDelimiter]
  · rw [beq_eq_false_iff_ne.mpr hk, Bool.false_and, Bool.false_and]

theorem startsParameters (h : v.Streams s s') : s'.startsParameters = s.startsParameters := by
  unfold TokenStream.startsParameters TokenStream.tokens
  cases ho : s.current.isDelimiter "(" with
  | false =>
    have ho' := h.current.isDelimiter "("
    rw [ho] at ho'
    cases s.rest <;> cases s'.rest <;> simp [ho, ho']
  | true =>
    have hrest := h.rest (Parse.endsStatement_of_isDelimiter ho)
    rcases hrest.cases with ⟨hs, hs'⟩ | ⟨t, u, ts, us, hs, hs'⟩
    · rw [hs, hs']
    · rw [hs, hs'] at hrest ⊢
      dsimp only
      rw [h.current.isDelimiter, hrest.pair.isDelimiter, hrest.pair.kind]
      by_cases hk : t.kind = .identifier
      · have hmore := hrest.tail fun _ => by simp [Token.endsStatement, hk]
        rcases hmore.cases with ⟨rfl, rfl⟩ | ⟨t', u', ts, us, rfl, rfl⟩
        · rfl
        · dsimp only
          rw [hmore.pair.isDelimiter]
      · rw [beq_eq_false_iff_ne.mpr hk, Bool.false_and, Bool.false_and]

theorem shares_advance (h : v.Streams s s') :
    v.Shares s.advance.tokens s'.advance.tokens ∧ s.advance.tokens <:+ s.tokens := by
  obtain ⟨_, _, htokens, -, hrest⟩ := Within.cons h
  obtain ⟨rfl, rfl⟩ := List.cons.inj htokens
  unfold TokenStream.advance
  rw [h.current.kind]
  cases hs : s.rest with
  | nil =>
    rw [hs] at hrest
    cases hs' : s'.rest with
    | nil => exact ⟨h.shares, List.suffix_refl _⟩
    | cons =>
      rw [hs'] at hrest
      cases hrest
  | cons t ts =>
    rw [hs] at hrest
    cases hs' : s'.rest with
    | nil =>
      rw [hs'] at hrest
      cases hrest with
      | ends _ _ hne => exact absurd rfl hne
    | cons u us =>
      rw [hs'] at hrest
      dsimp only
      split
      · exact ⟨h.shares, List.suffix_refl _⟩
      · refine ⟨hrest, ?_⟩
        rw [TokenStream.tokens, TokenStream.tokens, hs]
        exact List.suffix_cons _ _

/-- Behind a word the first run is not at its end. -/
theorem advance (h : v.Streams s s') (hw : v.goesOn → s.current.endsStatement = false) :
    v.Streams s.advance s'.advance := by
  obtain ⟨hshares, hsuffix⟩ := h.shares_advance
  refine ⟨hshares, fun hgoes => ?_⟩
  obtain ⟨⟨all, hall, hs⟩, hmore⟩ := h.source hgoes
  refine ⟨⟨all, hall, hsuffix.trans hs⟩, fun t ht => ?_⟩
  obtain ⟨_, hlined⟩ := hall.suffix hs (List.cons_ne_nil _ _)
  have hnext := hlined.endOfFile_of_word (hw hgoes)
  unfold TokenStream.advance at ht
  split at ht
  · exact hmore t ht
  · next hrest =>
    split at ht
    · exact hmore t ht
    · exact hnext t (hrest ▸ ht)

end Variation.Streams

/-! ## Parsers -/

theorem Parse.expectEndOfStatement_apply (p : Parser) :
    Parse.expectEndOfStatement p =
      if p.stream.current.kind = .endOfStatement then
        .ok () { p with stream := p.stream.advance }
      else .error ⟨.expected "end of statement", p.stream.current.location⟩ p := by
  unfold expectEndOfStatement expect
  rw [Execution.bind_apply, Execution.bind_apply, accept_apply]
  by_cases hk : p.stream.current.kind = .endOfStatement
  · rw [if_pos hk, if_pos hk]
    rfl
  · rw [if_neg hk, if_neg hk]
    rfl

namespace Variation

variable (v : Variation)

/-- What the two parsers hold besides their tokens. -/
structure Settings (p q : Parser) : Prop where
  level : q.level = p.level + v.deeper
  symbols : p.symbols.Like v.words q.symbols
  keywords : q.keywords = p.keywords
  next : q.nextFunction = p.nextFunction

/-- The two parsers inside of a line, or in front of one that both have. -/
structure Inside (p q : Parser) : Prop extends v.Settings p q where
  streams : v.Streams p.stream q.stream

/-- The two parsers in front of a line, or the first one at the end of its text. -/
structure Front (p q : Parser) : Prop extends v.Settings p q where
  shares : v.Shares p.stream.tokens q.stream.tokens
  source : v.goesOn → p.InSource

/-- How the two runs come out: alike, unless the first one is at the end of its text. There it has failed for
that reason, or it has a result for which `ended` holds. -/
inductive Agree {σ α β : Type} (ended : α → σ → Prop) (related : α → β → σ → σ → Prop) :
    EStateM.Result Diagnostic σ α → EStateM.Result Diagnostic σ β → Prop where
  | ok {a : α} {b : β} {s t : σ} : related a b s t → Agree ended related (.ok a s) (.ok b t)
  | error {d e : Diagnostic} {s t : σ} : d.Like v.stops e → Agree ended related (.error d s) (.error e t)
  | missing {d : Diagnostic} {s : σ} {r : EStateM.Result Diagnostic σ β} : v.goesOn →
      d.fault = .unexpectedEnd → Agree ended related (.error d s) r
  | ended {a : α} {s : σ} {r : EStateM.Result Diagnostic σ β} : v.goesOn → ended a s →
      Agree ended related (.ok a s) r

/-- The runs of an action that ends inside of the line. -/
def Inline {α β : Type} (related : α → β → Prop) :
    EStateM.Result Diagnostic Parser α → EStateM.Result Diagnostic Parser β → Prop :=
  v.Agree (fun _ _ => False) fun a b p q => related a b ∧ v.Inside p q

end Variation

namespace Variation

open Execution Parse

variable {α β γ δ : Type} {p q : Parser}

theorem Inside.front (h : v.Inside p q) : v.Front p q :=
  ⟨h.toSettings, h.streams.shares, fun hgoes => (h.streams.source hgoes).1⟩

/-- In front of a line that the first run has too. -/
theorem Front.inside (h : v.Front p q) (hk : v.goesOn → p.stream.current.kind ≠ .endOfFile) :
    v.Inside p q := by
  refine ⟨h.toSettings, h.shares, fun hgoes => ⟨h.source hgoes, ?_⟩⟩
  rintro t ⟨⟩
  exact hk hgoes

theorem Front.inside_of_ends (h : v.Front p q) (hends : ¬ v.goesOn) : v.Inside p q :=
  h.inside fun hgoes => absurd hgoes hends

theorem Agree.bind {σ : Type} {ended : α → σ → Prop} {related : α → β → σ → σ → Prop}
    {ended' : γ → σ → Prop} {related' : γ → δ → σ → σ → Prop} {x : EStateM Diagnostic σ α}
    {y : EStateM Diagnostic σ β} {f : α → EStateM Diagnostic σ γ} {g : β → EStateM Diagnostic σ δ}
    {s t : σ} (h : v.Agree ended related (x s) (y t))
    (hok : ∀ a b s' t', related a b s' t' → v.Agree ended' related' (f a s') (g b t'))
    (hend : ∀ a s' r, x s = .ok a s' → v.goesOn → ended a s' → v.Agree ended' related' (f a s') r) :
    v.Agree ended' related' ((x >>= f) s) ((y >>= g) t) := by
  rw [bind_apply, bind_apply]
  generalize hx : x s = r at h
  generalize y t = r' at h
  cases h with
  | ok h => exact hok _ _ _ _ h
  | error h => exact .error h
  | missing hgoes hd => exact .missing hgoes hd
  | ended hgoes ha => exact hend _ _ _ hx hgoes ha

theorem Inline.bind {ended : γ → Parser → Prop} {related : α → β → Prop}
    {related' : γ → δ → Parser → Parser → Prop} {x : Parse α} {y : Parse β} {f : α → Parse γ}
    {g : β → Parse δ} (h : v.Inline related (x p) (y q))
    (hf : ∀ a b p' q', related a b → v.Inside p' q' → v.Agree ended related' (f a p') (g b q')) :
    v.Agree ended related' ((x >>= f) p) ((y >>= g) q) :=
  Agree.bind h (fun a b p' q' hab => hf a b p' q' hab.1 hab.2) (fun _ _ _ _ _ h => h.elim)

section

variable {ended : α → Parser → Prop} {related : α → β → Parser → Parser → Prop}

theorem Inside.fail (h : v.Inside p q) (fault : Fault) :
    v.Agree ended related ((fail fault : Parse α) p) ((fail fault : Parse β) q) := by
  rw [fail_apply, fail_apply]
  exact .error ⟨h.streams.current.place⟩

theorem throw_agree {d e : Diagnostic} (h : d.Like v.words e) :
    v.Agree ended related ((throw d : Parse α) p) ((throw e : Parse β) q) := by
  obtain ⟨h⟩ := h
  exact .error ⟨v.stops_of_words h⟩

end

namespace Inside

/-- Behind a word the line goes on. -/
theorem advanced (h : v.Inside p q) (hw : v.goesOn → p.stream.current.endsStatement = false) :
    v.Inside { p with stream := p.stream.advance } { q with stream := q.stream.advance } :=
  ⟨⟨h.level, h.symbols, h.keywords, h.next⟩, h.streams.advance hw⟩

theorem accept (h : v.Inside p q) (kind : Token.Kind) (hs : kind ≠ .endOfStatement)
    (hf : kind ≠ .endOfFile) :
    v.Inline (Option.Rel fun t u => v.Pair t u ∧ t.kind = kind) (Parse.accept kind p)
      (Parse.accept kind q) := by
  rw [accept_apply, accept_apply, h.streams.current.kind]
  split
  · next hk =>
    exact .ok ⟨.some ⟨h.streams.current, hk⟩,
      h.advanced fun _ => by simp [Token.endsStatement, hk, hs, hf]⟩
  · exact .ok ⟨.none, h⟩

theorem acceptDelimiter (h : v.Inside p q) (text : String) :
    v.Inline Eq (Parse.acceptDelimiter text p) (Parse.acceptDelimiter text q) := by
  rw [acceptDelimiter_apply, acceptDelimiter_apply, h.streams.current.isDelimiter]
  split
  · next ht => exact .ok ⟨rfl, h.advanced fun _ => endsStatement_of_isDelimiter ht⟩
  · exact .ok ⟨rfl, h⟩

theorem acceptOperator (h : v.Inside p q) (text : String) :
    v.Inline Eq (Parse.acceptOperator text p) (Parse.acceptOperator text q) := by
  rw [acceptOperator_apply, acceptOperator_apply, h.streams.current.isOperator]
  split
  · next ht => exact .ok ⟨rfl, h.advanced fun _ => endsStatement_of_isOperator ht⟩
  · exact .ok ⟨rfl, h⟩

theorem expect (h : v.Inside p q) (kind : Token.Kind) (hs : kind ≠ .endOfStatement)
    (hf : kind ≠ .endOfFile) (what : String) :
    v.Inline (fun t u => v.Pair t u ∧ t.kind = kind) (Parse.expect kind what p)
      (Parse.expect kind what q) := by
  refine (h.accept kind hs hf).bind fun a b p' q' hab h' => ?_
  cases hab with
  | none => exact h'.fail _
  | some hab => exact .ok ⟨hab, h'⟩

theorem expectDelimiter (h : v.Inside p q) (text : String) :
    v.Inline Eq (Parse.expectDelimiter text p) (Parse.expectDelimiter text q) := by
  refine (h.acceptDelimiter text).bind fun a b p' q' hab h' => ?_
  subst hab
  cases a with
  | false => exact h'.fail _
  | true => exact .ok ⟨rfl, h'⟩

/-- Behind the end of a line the first run may be at its end. -/
theorem behind (h : v.Inside p q) :
    v.Front { p with stream := p.stream.advance } { q with stream := q.stream.advance } := by
  obtain ⟨hshares, hsuffix⟩ := h.streams.shares_advance
  exact ⟨⟨h.level, h.symbols, h.keywords, h.next⟩, hshares,
    fun hgoes => (h.front.source hgoes).of_suffix hsuffix⟩

theorem expectEndOfStatement (h : v.Inside p q) :
    v.Agree (fun _ _ => False) (fun _ _ => v.Front) (Parse.expectEndOfStatement p)
      (Parse.expectEndOfStatement q) := by
  rw [expectEndOfStatement_apply, expectEndOfStatement_apply, h.streams.current.kind]
  split
  · exact .ok h.behind
  · exact .error ⟨h.streams.current.place⟩

end Inside

/-- A block has to follow, so that the first run is not at its end. -/
theorem Front.expectMore (h : v.Front p q) :
    v.Inline Eq (Parse.expectMore p) (Parse.expectMore q) := by
  unfold Parse.expectMore
  rw [current_bind, current_bind]
  by_cases hk : p.stream.current.kind = .endOfFile
  · rw [if_pos hk, fail_apply]
    by_cases hgoes : v.goesOn
    · exact .missing hgoes rfl
    · have hinside := h.inside_of_ends hgoes
      rw [if_pos (hinside.streams.current.kind.trans hk), fail_apply]
      exact .error ⟨hinside.streams.current.place⟩
  · have hinside := h.inside fun _ => hk
    rw [if_neg hk, if_neg (hinside.streams.current.kind ▸ hk)]
    exact .ok ⟨rfl, hinside⟩

theorem Inside.endHeader (h : v.Inside p q) :
    v.Inline Eq (Parse.endHeader p) (Parse.endHeader q) :=
  h.expectEndOfStatement.bind (fun _ _ _ _ h' => h'.expectMore) fun _ _ _ _ _ h => h.elim

/-! ## Frames, types and checks -/

namespace Inside

theorem with_symbols (h : v.Inside p q) {s t : SymbolTable} (hs : s.Like v.words t) :
    v.Inside { p with symbols := s } { q with symbols := t } :=
  ⟨⟨h.level, hs, h.keywords, h.next⟩, h.streams⟩

theorem openFrame (h : v.Inside p q) : v.Inline Eq (Parse.openFrame p) (Parse.openFrame q) :=
  .ok ⟨rfl, h.with_symbols h.symbols.openFrame⟩

theorem reopenFrame (h : v.Inside p q) {frame frame' : Frame} (hf : frame.Like v.words frame') :
    v.Inline Eq (Parse.reopenFrame frame p) (Parse.reopenFrame frame' q) :=
  .ok ⟨rfl, h.with_symbols (h.symbols.reopen hf)⟩

theorem closeFrame (h : v.Inside p q) :
    v.Inline (Frame.Like v.words) (Parse.closeFrame p) (Parse.closeFrame q) :=
  .ok ⟨h.symbols.close.1, h.with_symbols h.symbols.close.2⟩

theorem declare (h : v.Inside p q) {i j : Identifier} (hi : i.Like v.words j) :
    v.Inline Eq (Parse.declare i p) (Parse.declare j q) := by
  unfold Parse.declare
  rw [get_bind, get_bind]
  have hdeclare := h.symbols.declare? hi
  generalize p.symbols.declare? i = a at hdeclare
  generalize q.symbols.declare? j = b at hdeclare
  cases hdeclare with
  | some hs => exact .ok ⟨rfl, h.with_symbols hs⟩
  | none =>
    dsimp only
    rw [hi.name_eq]
    exact throw_agree ⟨hi.location⟩

theorem freshFunction (h : v.Inside p q) :
    v.Inline Eq (Parse.freshFunction p) (Parse.freshFunction q) :=
  .ok ⟨h.next.symm, ⟨h.level, h.symbols, h.keywords, congrArg (· + 1) h.next⟩, h.streams⟩

theorem liftExcept (h : v.Inside p q) {related : α → β → Prop} {x : Except Diagnostic α}
    {y : Except Diagnostic β} (hxy : Likewise v.words related x y) :
    v.Inline related (Parse.liftExcept x p) (Parse.liftExcept y q) := by
  cases hxy with
  | ok hab => exact .ok ⟨hab, h⟩
  | error hd => exact throw_agree hd

end Inside

theorem Pair.typeOfName {t u : Token} (h : v.Pair t u) (hk : t.kind = .identifier) :
    Likewise v.words Eq (Parse.typeOfName t) (Parse.typeOfName u) := by
  have hw : t.endsStatement = false := by simp [Token.endsStatement, hk]
  unfold Parse.typeOfName
  rw [h.text hw]
  cases DataType.ofName? t.text with
  | some type =>
    dsimp only
    rw [if_pos hk, if_pos (h.kind.trans hk)]
    exact .ok rfl
  | none => exact .error ⟨h.word (.inl hw)⟩

theorem Inside.dataType (h : v.Inside p q) :
    v.Inline (fun a b => a.1 = b.1 ∧ v.words a.2 b.2) (Parse.dataType p) (Parse.dataType q) := by
  refine (h.expect .identifier nofun nofun _).bind fun t u p' q' ⟨htu, hk⟩ h' => ?_
  refine (h'.liftExcept (htu.typeOfName hk)).bind fun a b p' q' hab h' => ?_
  exact .ok ⟨⟨hab, htu.word (.inl (by simp [Token.endsStatement, hk]))⟩, h'⟩

end Variation

end Offside
