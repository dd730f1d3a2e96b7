import Offside.Proofs.ReachedStates

/-!
# What an expression leaves alone

An expression reads the tokens and the names and nothing else. Whether it fails or not, it moves on along the
tokens and stops at the latest where a statement ends or in front of a comma, and of the rest of the parser
only the two stacks change. What they held before makes no difference.
-/

namespace Offside

set_option autoImplicit false

open Execution

namespace Execution

variable {ε σ α β : Type} {Inv : σ → Prop}

/-- The action keeps the invariant also where it fails. -/
def Preserves (Inv : σ → Prop) (x : EStateM ε σ α) : Prop := ∀ s, Inv s → Inv (stateAfter (x s))

theorem stateAfter_bind (x : EStateM ε σ α) (f : α → EStateM ε σ β) (s : σ) :
    stateAfter ((x >>= f) s) =
      match x s with
      | .ok a s' => stateAfter (f a s')
      | .error _ s' => s' := by
  rw [bind_apply]
  cases x s <;> rfl

theorem preserves_pure (a : α) : Preserves Inv (pure a : EStateM ε σ α) := fun _ hs => hs

theorem preserves_throw (e : ε) : Preserves Inv (throw e : EStateM ε σ α) := fun _ hs => hs

theorem preserves_set {s : σ} (h : Inv s) : Preserves Inv (set s : EStateM ε σ Unit) := fun _ _ => h

theorem preserves_modify {f : σ → σ} (h : ∀ s, Inv s → Inv (f s)) :
    Preserves Inv (modify f : EStateM ε σ Unit) := h

theorem preserves_bind {x : EStateM ε σ α} {f : α → EStateM ε σ β} (hx : Preserves Inv x)
    (hf : ∀ a, Preserves Inv (f a)) : Preserves Inv (x >>= f) := by
  intro s hs
  have hfirst := hx s hs
  rw [stateAfter_bind]
  cases hrun : x s with
  | ok a s' =>
    rw [hrun] at hfirst
    exact hf a s' hfirst
  | error e s' =>
    rw [hrun] at hfirst
    exact hfirst

/-- What comes behind a check that may fail. -/
theorem preserves_check {c : Prop} [Decidable c] {x : EStateM ε σ α} {y : EStateM ε σ β} (hx : Preserves Inv x)
    (hy : Preserves Inv y) : Preserves Inv (if c then x >>= fun _ => y else y) := by
  split
  · exact preserves_bind hx fun _ => hy
  · exact hy

/-- The state that is read has the invariant itself. -/
theorem preserves_get {f : σ → EStateM ε σ α} (h : ∀ s, Inv s → Preserves Inv (f s)) :
    Preserves Inv (get >>= f) := fun s hs => h s hs s hs

end Execution

namespace TokenStream

/-- The tokens between two places of a stream. None of them is a comma or ends a statement. -/
structure Crosses (passed : List Token) (s s' : TokenStream) : Prop where
  tokens : s.tokens = passed ++ s'.tokens
  position : s'.position = s.position + passed.length
  stays : ∀ t ∈ passed, t.endsStatement = false ∧ t.isDelimiter "," = false

variable {s s' s'' : TokenStream} {passed more : List Token}

theorem crosses_refl (s : TokenStream) : Crosses [] s s :=
  ⟨rfl, rfl, List.forall_mem_nil _⟩

theorem Crosses.trans (h : Crosses passed s s') (h' : Crosses more s' s'') :
    Crosses (passed ++ more) s s'' := by
  constructor
  · rw [h.tokens, h'.tokens, List.append_assoc]
  · rw [h'.position, h.position, List.length_append, Nat.add_assoc]
  · intro t ht
    rcases List.mem_append.mp ht with ht | ht
    · exact h.stays t ht
    · exact h'.stays t ht

/-- From a last token there is no moving on, whatever its kind. -/
theorem advance_cases (h : s.current.kind ≠ .endOfFile) :
    s.rest = [] ∧ s.advance = s ∨
      s.tokens = s.current :: s.advance.tokens ∧ s.advance.position = s.position + 1 := by
  obtain ⟨position, current, _ | ⟨next, rest⟩⟩ := s
  · exact .inl ⟨rfl, rfl⟩
  · exact .inr (by simp_all [advance, tokens])

theorem exists_crosses_advance (h : s.current.endsStatement = false) (hc : s.current.isDelimiter "," = false) :
    ∃ passed, Crosses passed s s.advance := by
  rcases advance_cases (Token.kind_ne_endOfFile h) with ⟨-, hsame⟩ | ⟨htokens, hposition⟩
  · rw [hsame]
    exact ⟨[], crosses_refl s⟩
  · exact ⟨[s.current], htokens, hposition, by simp [h, hc]⟩

end TokenStream

/-- Read with so many parentheses open, the tokens close none but these and the ones that they open; the second number
is that of the parentheses that are open behind them. -/
inductive Nests : Nat → List Token → Nat → Prop where
  | nil (depth : Nat) : Nests depth [] depth
  | opening {depth depth' : Nat} {t : Token} {ts : List Token} :
      t.isDelimiter "(" → Nests (depth + 1) ts depth' → Nests depth (t :: ts) depth'
  | closing {depth depth' : Nat} {t : Token} {ts : List Token} :
      t.isDelimiter ")" → Nests depth ts depth' → Nests (depth + 1) (t :: ts) depth'
  | word {depth depth' : Nat} {t : Token} {ts : List Token} :
      t.isDelimiter "(" = false → t.isDelimiter ")" = false → Nests depth ts depth' →
      Nests depth (t :: ts) depth'

namespace Expression

open TokenStream

variable {symbols : SymbolTable} {t : Token} {e e' : Expression}

/-! ## Streams behind one step -/

section SameStream

variable {s : TokenStream}

theorem preserves_fail {α : Type} (fault : Fault) :
    Preserves (·.stream = s) (fail fault : Build α) :=
  preserves_get fun _ _ => preserves_throw _

theorem preserves_reduce (top : PendingOperator) : Preserves (·.stream = s) (reduce top) := by
  refine preserves_get fun e he => ?_
  cases top.operator.isUnary with
  | true =>
    cases e.operands with
    | nil => exact preserves_throw _
    | cons => exact preserves_set he
  | false =>
    match e.operands with
    | [] | [_] => exact preserves_throw _
    | right :: left :: rest =>
      dsimp only
      cases checkTarget top left with
      | ok => exact preserves_set he
      | error d => exact preserves_bind (preserves_set he) fun _ => preserves_throw d

theorem preserves_reduceWhile (ready : Operator → Bool) (stack : List PendingOperator) :
    Preserves (·.stream = s) (reduceWhile ready stack) := by
  induction stack with
  | nil => exact preserves_pure ()
  | cons top below ih =>
    unfold reduceWhile
    split
    · exact preserves_bind (preserves_modify fun _ he => he) fun _ =>
        preserves_bind (preserves_reduce top) fun _ => ih
    · exact preserves_pure ()

theorem preserves_pushOperator (o : Operator) (place : Location) :
    Preserves (·.stream = s) (pushOperator o place) :=
  preserves_get fun _ _ => preserves_bind (preserves_reduceWhile _ _) fun _ => preserves_modify fun _ he => he

theorem preserves_finish : Preserves (·.stream = s) finish := by
  refine preserves_get fun e _ => preserves_check (preserves_fail _) ?_
  refine preserves_get fun _ _ => preserves_bind (preserves_reduceWhile _ _) fun _ => ?_
  refine preserves_get fun e he => ?_
  cases e.operands with
  | nil => exact preserves_fail _
  | cons n rest =>
    refine preserves_bind (preserves_set he) fun _ => ?_
    split
    · exact preserves_pure n
    · exact preserves_fail _

end SameStream

/-- At most the current token is taken. -/
def Moves (e e' : Expression) : Prop := e'.stream = e.stream ∨ e'.stream = e.stream.advance

/-- What comes behind the current token takes no other. -/
theorem stream_advance_bind {α : Type} {f : Unit → Build α} (h : Preserves (·.stream = e.stream.advance) (f ())) :
    (stateAfter ((advance >>= f) e)).stream = e.stream.advance := h { e with stream := e.stream.advance } rfl

theorem moves_openParenthesis (t : Token) (e : Expression) : e.Moves (stateAfter (openParenthesis t e)) := by
  unfold openParenthesis
  rw [get_bind]
  cases e.wantsOperand with
  | true => exact .inr rfl
  | false => exact .inl rfl

theorem moves_closeParenthesis (e : Expression) : e.Moves (stateAfter (closeParenthesis e)) := by
  unfold closeParenthesis
  rw [get_bind]
  cases e.wantsOperand with
  | true => exact .inl rfl
  | false =>
    refine .inr (stream_advance_bind (preserves_bind (preserves_modify fun _ he => he) fun _ => ?_))
    refine preserves_get fun _ _ => preserves_bind (preserves_reduceWhile _ _) fun _ => ?_
    exact preserves_modify fun _ he => he

theorem moves_literal (t : Token) (e : Expression) : e.Moves (stateAfter (literal t e)) := by
  unfold literal
  rw [get_bind]
  cases e.wantsOperand with
  | false => exact .inl rfl
  | true => cases Literal.ofToken t <;> exact .inr rfl

theorem moves_identifier (symbols : SymbolTable) (t : Token) (e : Expression) :
    e.Moves (stateAfter (identifier symbols t e)) := by
  unfold identifier
  rw [get_bind]
  cases e.wantsOperand with
  | false => exact .inl rfl
  | true =>
    cases symbols.lookup? t.text with
    | none => exact .inl rfl
    | some i =>
      cases i with
      | constant => exact .inl rfl
      | var | function => exact .inr rfl

theorem moves_operator (symbols : SymbolTable) (t : Token) (e : Expression) :
    e.Moves (stateAfter (operator symbols t e)) := by
  unfold operator
  cases Operator.ofSymbol? t.text with
  | none => exact .inl rfl
  | some symbolOperator =>
    refine .inr (stream_advance_bind (preserves_get fun e _ => ?_))
    dsimp only
    cases resolve t symbolOperator e.wantsOperand e.afterVariable (isVariable symbols e.stream.current) with
    | error d => exact preserves_throw d
    | ok o => exact preserves_bind (preserves_pushOperator o _) fun _ => preserves_modify fun _ he => he

theorem Moves.exists_crosses (h : e.Moves e') (hends : e.stream.current.endsStatement = false)
    (hcomma : e.stream.current.isDelimiter "," = false) : ∃ passed, Crosses passed e.stream e'.stream := by
  rcases h with h | h
  · rw [h]
    exact ⟨[], crosses_refl _⟩
  · rw [h]
    exact exists_crosses_advance hends hcomma

/-- A step that ends as the action does leaves the state that the action leaves. -/
theorem stateAfter_then_true (x : Build Unit) (e : Expression) :
    stateAfter ((do x; return true : Build Bool) e) = stateAfter (x e) := by
  rw [stateAfter_bind]
  cases x e <;> rfl

theorem Acts.moves {x : Build Unit} (h : Acts symbols e x) : e.Moves (stateAfter (x e)) := by
  cases h with
  | literal => exact moves_literal _ e
  | identifier => exact moves_identifier symbols _ e
  | operator => exact moves_operator symbols _ e
  | opening => exact moves_openParenthesis _ e
  | closing => exact moves_closeParenthesis e
  | stuck => exact .inl rfl

/-- No step takes a token that ends the expression, not even a step that fails. -/
theorem step_crosses (symbols : SymbolTable) (e : Expression) :
    ∃ passed, Crosses passed e.stream (stateAfter (step symbols e)).stream := by
  rcases step_acts symbols e with ⟨-, hstep⟩ | ⟨hstay, x, hacts, hstep⟩
  · rw [hstep]
    exact ⟨[], crosses_refl _⟩
  · rw [hstep, stateAfter_then_true]
    refine hacts.moves.exists_crosses ?_ ?_
    · exact Bool.eq_false_iff.mpr fun hends => hstay (.inl hends)
    · exact Bool.eq_false_iff.mpr fun hcomma => hstay (.inr (.inl hcomma))

/-! ## The whole expression, successful or not -/

theorem steps_crosses (symbols : SymbolTable) (n : Nat) (e : Expression) :
    ∃ passed, Crosses passed e.stream (stateAfter (steps symbols n e)).stream := by
  induction n generalizing e with
  | zero => exact ⟨[], crosses_refl _⟩
  | succ n ih =>
    obtain ⟨passed, hstep⟩ := step_crosses symbols e
    unfold steps
    rw [stateAfter_bind]
    cases h : step symbols e with
    | error d e₁ =>
      rw [h] at hstep
      exact ⟨passed, hstep⟩
    | ok b e₁ =>
      rw [h] at hstep
      cases b with
      | false => exact ⟨passed, hstep⟩
      | true =>
        obtain ⟨more, hsteps⟩ := ih e₁
        exact ⟨passed ++ more, hstep.trans hsteps⟩

theorem tree_crosses (symbols : SymbolTable) (s : TokenStream) :
    ∃ passed, Crosses passed s (stateAfter (tree symbols (.start s))).stream := by
  obtain ⟨passed, hsteps⟩ := steps_crosses symbols s.tokens.length (.start s)
  have htree : (stateAfter (tree symbols (.start s))).stream =
      (stateAfter (steps symbols s.tokens.length (.start s))).stream := by
    show (stateAfter ((steps symbols s.tokens.length >>= fun _ => finish) (.start s))).stream = _
    rw [stateAfter_bind]
    cases steps symbols s.tokens.length (.start s) with
    | error d e₁ => rfl
    | ok u e₁ => exact preserves_finish e₁ rfl
  exact ⟨passed, htree ▸ hsteps⟩

/-! ## Success -/

/-- A step that goes on counts the parenthesis that it takes. -/
theorem step_nests {depth : Nat} {ts : List Token} (h : step symbols e = .ok true e')
    (hts : Nests e'.parentheses ts depth) : Nests e.parentheses (e.stream.current :: ts) depth := by
  have hword : e.stream.current.kind ≠ .delimiter → e'.parentheses = e.parentheses →
      Nests e.parentheses (e.stream.current :: ts) depth := by
    intro hk hsame
    have hd := fun text => Bool.eq_false_iff.mpr (@Token.not_isDelimiter_of_kind _ text hk)
    exact .word (hd _) (hd _) (hsame ▸ hts)
  rcases step_eq_ok h with ⟨hends, -⟩ | ⟨-, -, x, hacts, hx⟩
  · cases hends
  · cases hacts with
    | literal hk =>
      obtain ⟨-, l, -, rfl⟩ := literal_eq_ok.mp hx
      exact hword (by simp [hk]) rfl
    | identifier hk =>
      obtain ⟨-, ⟨v, -, rfl⟩ | ⟨f, -, rfl⟩⟩ := identifier_eq_ok.mp hx
      · exact hword (by simp [hk]) rfl
      · exact hword (by simp [hk]) rfl
    | operator hk =>
      obtain ⟨_, _, e₁, -, -, hreduces, rfl⟩ := operator_eq_ok.mp hx
      exact hword (by simp [hk]) (reduceWhile_rearranges hreduces).parentheses
    | opening hopening =>
      obtain ⟨-, rfl⟩ := openParenthesis_eq_ok.mp hx
      exact .opening hopening hts
    | closing hclosing hopen =>
      obtain ⟨-, e₁, hreduces, rfl⟩ := closeParenthesis_eq_ok.mp hx
      have hcount : e₁.parentheses = e.parentheses - 1 := (reduceWhile_rearranges hreduces).parentheses
      have hdepth : e.parentheses = (e.parentheses - 1) + 1 := by omega
      rw [hdepth]
      exact .closing hclosing (hcount ▸ hts)
    | stuck => cases hx

/-- With just as many steps as there are tokens the last token is never taken, so every step that goes on is one
token further. -/
theorem steps_nests {n : Nat} (hn : e.stream.tokens.length = n) (h : steps symbols n e = .ok () e') :
    ∃ passed, Crosses passed e.stream e'.stream ∧ Nests e.parentheses passed e'.parentheses ∧
      Draft.EndsBefore e'.parentheses e'.stream.current := by
  induction n generalizing e with
  | zero => cases h
  | succ n ih =>
    obtain ⟨b, e₁, hstep, hrest⟩ := bind_eq_ok.mp h
    cases b with
    | false =>
      cases hrest
      obtain ⟨rfl, hends⟩ := step_ends hstep
      exact ⟨[], crosses_refl _, .nil _, hends⟩
    | true =>
      have htakes := step_takes hstep
      obtain ⟨first, hfirst⟩ := step_crosses symbols e
      rw [hstep] at hfirst
      rcases advance_cases htakes.kind with ⟨hlast, -⟩ | ⟨htokens, -⟩
      · rw [TokenStream.tokens, hlast] at hn
        obtain rfl : n = 0 := by simpa using hn.symm
        cases hrest
      · rw [← htakes.stream] at htokens
        have hlength : e₁.stream.tokens.length = n := by
          rw [htokens] at hn
          exact Nat.succ.inj hn
        obtain ⟨passed, hcrosses, hnests, hends⟩ := ih hlength hrest
        obtain rfl : first = [e.stream.current] :=
          List.append_cancel_right (hfirst.tokens.symm.trans htokens)
        exact ⟨_, hfirst.trans hcrosses, step_nests hstep hnests, hends⟩

/-- All operators have left their stack once each of them has been taken off. -/
theorem operators_reduceWhile {stack : List PendingOperator} (hstack : e.operators = stack)
    (h : reduceWhile (fun _ => true) stack e = .ok () e') : e'.operators = [] := by
  induction stack generalizing e with
  | nil =>
    cases h
    exact hstack
  | cons top below ih =>
    obtain ⟨e₁, hreduce, hrest⟩ := (reduceWhile_of_ready rfl).mp h
    exact ih (length_reduce hreduce).1 hrest

/-- The stacks that a tree leaves are empty, and the parentheses that the expression has opened it has closed. -/
theorem tree_nests {s : TokenStream} {n : Node} (h : tree symbols (.start s) = .ok n e') :
    e'.operands = [] ∧ e'.operators = [] ∧
      ∃ passed, Crosses passed s e'.stream ∧ Nests 0 passed 0 ∧ Draft.EndsBefore 0 e'.stream.current := by
  obtain ⟨e₁, hsteps, hfinish⟩ := tree_steps h
  obtain ⟨passed, hcrosses, hnests, hends⟩ := steps_nests rfl hsteps
  obtain ⟨hclosed, e₂, hreduces, -, rfl⟩ := finish_eq_ok.mp hfinish
  have hstream : e₂.stream = e₁.stream := (reduceWhile_rearranges hreduces).stream
  have hoperators : e₂.operators = [] := operators_reduceWhile rfl hreduces
  refine ⟨rfl, hoperators, passed, ?_⟩
  rw [hclosed] at hnests hends
  dsimp only
  rw [hstream]
  exact ⟨hcrosses, hnests, hends⟩

end Expression

namespace Parse

open TokenStream

/-! ## The parser around the expression -/

theorem expression_apply (p : Parser) :
    expression p =
      match Expression.tree p.symbols (.start p.stream) with
      | .ok n e =>
        match n.fold with
        | .ok folded => .ok folded (p.keep e)
        | .error d => .error d (p.keep e)
      | .error d e => .error d (p.keep e) := by
  unfold expression
  rw [bind_apply, expressionTree]
  cases Expression.tree p.symbols (.start p.stream) with
  | error d e => rfl
  | ok n e =>
    dsimp only
    cases n.fold <;> rfl

theorem stateAfter_expression (p : Parser) :
    stateAfter (expression p) = p.keep (stateAfter (Expression.tree p.symbols (.start p.stream))) := by
  rw [expression_apply]
  cases Expression.tree p.symbols (.start p.stream) with
  | error d e => rfl
  | ok n e =>
    dsimp only
    cases n.fold <;> rfl

/-- Of the parser that an expression leaves, only the place in the stream and the stacks count. -/
def SameExpression (p q : Parser) : Prop :=
  p.stream = q.stream ∧ p.operands = q.operands ∧ p.operators = q.operators

theorem expression_matches {p q : Parser} (hstream : q.stream = p.stream) (hsymbols : q.symbols = p.symbols) :
    Matches SameExpression (expression p) (expression q) := by
  rw [expression_apply, expression_apply, hstream, hsymbols]
  cases Expression.tree p.symbols (.start p.stream) with
  | error d e => exact .error ⟨rfl, rfl, rfl⟩
  | ok n e =>
    dsimp only
    cases n.fold with
    | error d => exact .error ⟨rfl, rfl, rfl⟩
    | ok folded => exact .ok ⟨rfl, rfl, rfl⟩

/-- Read a second time from where it begins, in the state that the first time has left, an expression ends as it did. -/
theorem expression_again (p : Parser) :
    expression { stateAfter (expression p) with stream := p.stream } = expression p := by
  rw [stateAfter_expression, expression_apply, expression_apply]
  rfl

/-- Whether an expression fails or not, it moves on along its stream without taking a comma or a token that ends a
statement, and changes nothing else but the stacks. If it succeeds, the stacks are empty, and it stands in front of
such a token, or of a closing parenthesis that none of its own has opened. What it comes to, and where, depends on the
stream and the names only: not on the rest of the parser, nor on stacks that something that failed has left. -/
theorem expression_reads_only (p : Parser) :
    stateAfter (expression p) = { p with
      stream := (stateAfter (expression p)).stream
      operands := (stateAfter (expression p)).operands
      operators := (stateAfter (expression p)).operators } ∧
    (∃ passed, Crosses passed p.stream (stateAfter (expression p)).stream) ∧
    (∀ n p', expression p = .ok n p' → p'.operands = [] ∧ p'.operators = [] ∧
      ∃ passed, Crosses passed p.stream p'.stream ∧ Nests 0 passed 0 ∧
        (p'.stream.current.endsStatement ∨ p'.stream.current.isDelimiter "," ∨
          p'.stream.current.isDelimiter ")")) ∧
    (∀ q : Parser, Matches SameExpression (expression p)
      (expression { q with stream := p.stream, symbols := p.symbols })) ∧
    expression { stateAfter (expression p) with stream := p.stream } = expression p := by
  refine ⟨?_, ?_, ?_, fun q => expression_matches rfl rfl, expression_again p⟩
  · rw [stateAfter_expression]
    rfl
  · rw [stateAfter_expression]
    exact Expression.tree_crosses p.symbols p.stream
  · intro n p' h
    rw [expression_apply] at h
    cases htree : Expression.tree p.symbols (.start p.stream) with
    | error d e =>
      rw [htree] at h
      cases h
    | ok m e =>
      rw [htree] at h
      dsimp only at h
      cases hfold : m.fold with
      | error d =>
        rw [hfold] at h
        cases h
      | ok folded =>
        rw [hfold] at h
        cases h
        obtain ⟨hoperands, hoperators, passed, hcrosses, hnests, hends⟩ := Expression.tree_nests htree
        refine ⟨hoperands, hoperators, passed, hcrosses, hnests, ?_⟩
        rcases hends with hends | hcomma | ⟨hclosing, -⟩
        · exact .inl hends
        · exact .inr (.inl hcomma)
        · exact .inr (.inr hclosing)

/-- The second closing parenthesis of `(x))` ends the expression; what is on the stacks before does not get into it. -/
theorem expression_reads_only_enclosed :
    let x : Variable := ⟨"x", .int, false, ⟨"", 1, 1⟩⟩
    let mark (text : String) : Token := .plain .delimiter text ⟨"", 2, 1⟩ 0
    let name : Token := .plain .identifier "x" ⟨"", 2, 2⟩ 0
    let s : TokenStream := ⟨7, mark "(", [name, mark ")", mark ")", .endAt ⟨"", 3, 1⟩]⟩
    let p : Parser := ⟨s, 0, ⟨[[.var x]]⟩, [.var x], [⟨.add, ⟨"", 1, 5⟩⟩], [], 0, []⟩
    let p' : Parser := { p with
      stream := ⟨10, mark ")", [.endAt ⟨"", 3, 1⟩]⟩, operands := [], operators := [] }
    expression p = .ok (.var x) p' ∧
      ∃ passed, Crosses passed s p'.stream ∧ Nests 0 passed 0 := by
  intro x mark name s p p'
  have hrun : expression p = .ok (.var x) p' := rfl
  obtain ⟨-, -, passed, hcrosses, hnests, -⟩ := (expression_reads_only p).2.2.1 _ _ hrun
  exact ⟨hrun, passed, hcrosses, hnests⟩

end Parse

end Offside
