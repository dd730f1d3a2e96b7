import Offside.Proofs.Unrolling

/-!
# Runs side by side

Two streams may differ in what is never read. From states that differ in such streams only, an action ends in
the same way, whether it fails or not, and again in states that differ in such streams only.
-/

namespace Offside

set_option autoImplicit false

open Execution TokenStream

namespace Execution

variable {ε σ α β : Type} {S : σ → σ → Prop}

/-- The same result or the same error, in states that are related. -/
inductive Matches (S : σ → σ → Prop) :
    EStateM.Result ε σ α → EStateM.Result ε σ α → Prop where
  | ok {a : α} {s t : σ} : S s t → Matches S (.ok a s) (.ok a t)
  | error {e : ε} {s t : σ} : S s t → Matches S (.error e s) (.error e t)

def Respects (S : σ → σ → Prop) (x : EStateM ε σ α) : Prop := ∀ s t, S s t → Matches S (x s) (x t)

variable {x : EStateM ε σ α}

theorem respects_pure (a : α) : Respects S (pure a : EStateM ε σ α) := fun _ _ h => .ok h

theorem respects_throw (e : ε) : Respects S (throw e : EStateM ε σ α) := fun _ _ h => .error h

theorem respects_modify {f : σ → σ} (h : ∀ s t, S s t → S (f s) (f t)) :
    Respects S (modify f : EStateM ε σ Unit) := fun s t hst => .ok (h s t hst)

theorem Matches.bind {y : EStateM ε σ α} {f : α → EStateM ε σ β} {s t : σ}
    (h : Matches S (x s) (y t)) (hf : ∀ a, Respects S (f a)) :
    Matches S ((x >>= f) s) ((y >>= f) t) := by
  rw [bind_apply, bind_apply]
  generalize hx : x s = r at h
  generalize hy : y t = r' at h
  cases h with
  | ok hst => exact hf _ _ _ hst
  | error hst => exact .error hst

theorem respects_bind {f : α → EStateM ε σ β} (hx : Respects S x) (hf : ∀ a, Respects S (f a)) :
    Respects S (x >>= f) := fun s t hst => (hx s t hst).bind hf

/-- What is done with the state may depend on what related states have in common. -/
theorem respects_get {f : σ → EStateM ε σ α} (h : ∀ s t, S s t → f s = f t)
    (hf : ∀ s, Respects S (f s)) : Respects S (get >>= f) := by
  intro s t hst
  rw [get_bind, get_bind, h s t hst]
  exact hf t s t hst

theorem respects_unless {c : Prop} [Decidable c] {y : EStateM ε σ PUnit} (hy : Respects S y)
    (hx : Respects S x) :
    Respects S (do
      if c then y
      x) := by
  split
  · exact respects_bind hy fun _ => hx
  · exact hx

/-- The two runs may have bounds of their own, if neither bound is ever reached. -/
theorem matches_bounded {x : Nat → EStateM ε σ α} (hx : ∀ n, Respects S (x n)) {s t : σ} {n m : Nat}
    (hn : ∀ k, n ≤ k → x n s = x k s) (hm : ∀ k, m ≤ k → x m t = x k t) (hst : S s t) :
    Matches S (x n s) (x m t) := by
  rw [hn _ (Nat.le_max_left n m), hm _ (Nat.le_max_right n m)]
  exact hx _ s t hst

end Execution

/-! ## Streams that cannot be told apart -/

/-- The streams look the same here and wherever both have moved on to. -/
structure Coupling (R : TokenStream → TokenStream → Prop) : Prop where
  current : ∀ s t, R s t → s.current = t.current
  advance : ∀ s t, R s t → R s.advance t.advance
  endsAhead : ∀ s t, R s t → s.EndsAhead ∧ t.EndsAhead

namespace Coupling

variable {R : TokenStream → TokenStream → Prop} (hR : Coupling R) {s t : TokenStream}
include hR

theorem startsDeclaration (h : R s t) : s.startsDeclaration = t.startsDeclaration := by
  obtain ⟨hs, ht⟩ := hR.endsAhead s t h
  rw [startsDeclaration_eq hs, startsDeclaration_eq ht, hR.current s t h,
    hR.current _ _ (hR.advance s t h)]

theorem startsParameters (h : R s t) : s.startsParameters = t.startsParameters := by
  obtain ⟨hs, ht⟩ := hR.endsAhead s t h
  have hnext := hR.advance s t h
  rw [startsParameters_eq hs, startsParameters_eq ht, hR.current s t h, hR.current _ _ hnext,
    hR.current _ _ (hR.advance _ _ hnext)]

theorem hasComma (h : R s t) (depth : Nat) :
    hasComma depth s.tokens = hasComma depth t.tokens := by
  induction hn : s.tokens.length using Nat.strongRecOn generalizing s t depth with
  | ind n ih =>
    obtain ⟨hs, ht⟩ := hR.endsAhead s t h
    have hcurrent := hR.current s t h
    cases hend : s.current.endsStatement with
    | true =>
      have hend' : t.current.endsStatement = true := hcurrent ▸ hend
      rw [tokens, tokens, TokenStream.hasComma, TokenStream.hasComma, if_pos hend, if_pos hend']
    | false =>
      have hk := Token.kind_ne_endOfFile hend
      have hlt := (beyond_advance hk).length_lt hs
      have hmore := fun depth => ih _ (hn ▸ hlt) (hR.advance s t h) depth rfl
      rw [tokens_advance hs hk, tokens_advance ht (hcurrent ▸ hk), TokenStream.hasComma,
        TokenStream.hasComma, hcurrent, hmore, hmore, hmore]

theorem startsThreePartLoop (h : R s t) : s.startsThreePartLoop = t.startsThreePartLoop := by
  have hnext := hR.advance s t h
  simp only [TokenStream.startsThreePartLoop, hR.current _ _ hnext, hR.startsDeclaration hnext,
    hR.hasComma hnext]

end Coupling

variable {R : TokenStream → TokenStream → Prop}

/-- The second parser has a stream of its own, and is the first one otherwise. -/
def Parser.Coupled (R : TokenStream → TokenStream → Prop) (p q : Parser) : Prop :=
  ∃ t, R p.stream t ∧ q = { p with stream := t }

def Expression.Coupled (R : TokenStream → TokenStream → Prop) (e f : Expression) : Prop :=
  ∃ t, R e.stream t ∧ f = { e with stream := t }

/-! ## Expressions -/

namespace Expression

abbrev Couples (R : TokenStream → TokenStream → Prop) {α : Type} (x : Build α) : Prop :=
  Respects (Expression.Coupled R) x

variable {α : Type} {symbols : SymbolTable} (hR : Coupling R)

theorem couples_get {f : Expression → Build α}
    (h : ∀ e t, R e.stream t → f e = f { e with stream := t }) (hf : ∀ e, Couples R (f e)) :
    Couples R (get >>= f) := by
  refine respects_get ?_ hf
  rintro e _ ⟨t, ht, rfl⟩
  exact h e t ht

theorem couples_modify {f : Expression → Expression} (hstream : ∀ e, (f e).stream = e.stream)
    (hf : ∀ e t, f { e with stream := t } = { f e with stream := t }) :
    Couples R (modify f : Build Unit) := by
  refine respects_modify ?_
  rintro e _ ⟨t, ht, rfl⟩
  exact ⟨t, (hstream e).symm ▸ ht, hf e t⟩

theorem couples_reduce (top : PendingOperator) : Couples R (reduce top) := by
  rintro ⟨stream, operands, operators, wants, afterVariable, parentheses⟩ _ ⟨t, ht, rfl⟩
  unfold reduce
  rw [get_bind, get_bind]
  cases top.operator.isUnary with
  | true =>
    cases operands with
    | nil => exact .error ⟨t, ht, rfl⟩
    | cons operand rest => exact .ok ⟨t, ht, rfl⟩
  | false =>
    rcases operands with _ | ⟨right, _ | ⟨left, rest⟩⟩
    · exact .error ⟨t, ht, rfl⟩
    · exact .error ⟨t, ht, rfl⟩
    · dsimp only
      cases checkTarget top left with
      | ok => exact .ok ⟨t, ht, rfl⟩
      | error d => exact .error ⟨t, ht, rfl⟩

theorem couples_reduceWhile (ready : Operator → Bool) (stack : List PendingOperator) :
    Couples R (reduceWhile ready stack) := by
  induction stack with
  | nil => exact respects_pure ()
  | cons top below ih =>
    unfold reduceWhile
    split
    · refine respects_bind (couples_modify (fun _ => by rfl) fun _ _ => by rfl) fun _ => ?_
      exact respects_bind (couples_reduce top) fun _ => ih
    · exact respects_pure ()

theorem couples_pushOperator (operator : Operator) (location : Location) :
    Couples R (pushOperator operator location) := by
  refine couples_get (fun _ _ _ => rfl) fun e => respects_bind (couples_reduceWhile _ _) fun _ => ?_
  exact couples_modify (fun _ => by rfl) fun _ _ => by rfl

theorem couples_pushOperand (n : Node) (isVariable : Bool) : Couples R (pushOperand n isVariable) :=
  couples_modify (fun _ => by rfl) fun _ _ => by rfl

include hR

theorem couples_fail (fault : Fault) : Couples R (fail fault : Build α) :=
  couples_get (fun e t ht => by simp only [hR.current _ _ ht]) fun _ => respects_throw _

theorem couples_advance : Couples R advance := by
  refine respects_modify ?_
  rintro e _ ⟨t, ht, rfl⟩
  exact ⟨t.advance, hR.advance _ _ ht, rfl⟩

theorem couples_openParenthesis (t : Token) : Couples R (openParenthesis t) := by
  refine couples_get (fun _ _ _ => rfl) fun e => respects_unless (couples_fail hR _) ?_
  refine respects_bind (couples_advance hR) fun _ => ?_
  exact couples_modify (fun _ => by rfl) fun _ _ => by rfl

theorem couples_closeParenthesis : Couples R closeParenthesis := by
  refine couples_get (fun _ _ _ => rfl) fun e => respects_unless (couples_fail hR _) ?_
  refine respects_bind (couples_advance hR) fun _ => ?_
  refine respects_bind (couples_modify (fun _ => by rfl) fun _ _ => by rfl) fun _ => ?_
  refine couples_get (fun _ _ _ => rfl) fun e => respects_bind (couples_reduceWhile _ _) fun _ => ?_
  exact couples_modify (fun _ => by rfl) fun _ _ => by rfl

theorem couples_literal (t : Token) : Couples R (literal t) := by
  refine couples_get (fun _ _ _ => rfl) fun e => respects_unless (couples_fail hR _) ?_
  refine respects_bind (couples_advance hR) fun _ => ?_
  cases Literal.ofToken t with
  | ok l => exact couples_pushOperand _ _
  | error d => exact respects_throw d

theorem couples_identifier (t : Token) : Couples R (identifier symbols t) := by
  refine couples_get (fun _ _ _ => rfl) fun e => respects_unless (couples_fail hR _) ?_
  split
  · exact respects_bind (couples_advance hR) fun _ => couples_pushOperand _ _
  · exact respects_bind (couples_advance hR) fun _ => couples_pushOperand _ _
  · exact couples_fail hR _
  · exact couples_fail hR _

theorem couples_operator (t : Token) : Couples R (operator symbols t) := by
  unfold operator
  split
  · exact couples_fail hR _
  · refine respects_bind (couples_advance hR) fun _ => couples_get ?_ fun e => ?_
    · exact fun e u hu => by simp only [hR.current _ _ hu]
    · dsimp only
      split
      · exact respects_throw _
      · refine respects_bind (couples_pushOperator _ _) fun _ => ?_
        exact couples_modify (fun _ => by rfl) fun _ _ => by rfl

theorem couples_step : Couples R (step symbols) := by
  refine couples_get (fun e t ht => by simp only [hR.current _ _ ht]) fun e => ?_
  dsimp only
  split
  · exact respects_pure _
  · exact respects_pure _
  · split
    · exact respects_pure _
    · split
      · exact respects_bind (couples_openParenthesis hR _) fun _ => respects_pure _
      · split
        · exact respects_bind (couples_closeParenthesis hR) fun _ => respects_pure _
        · exact respects_bind (couples_fail hR _) fun _ => respects_pure _
  · exact respects_bind (couples_literal hR _) fun _ => respects_pure _
  · exact respects_bind (couples_identifier hR _) fun _ => respects_pure _
  · exact respects_bind (couples_operator hR _) fun _ => respects_pure _
  · exact couples_fail hR _

theorem couples_steps (n : Nat) : Couples R (steps symbols n) := by
  induction n with
  | zero => exact couples_fail hR _
  | succ n ih =>
    refine respects_bind (couples_step hR) fun b => ?_
    split
    · exact ih
    · exact respects_pure ()

theorem couples_finish : Couples R finish := by
  refine couples_get (fun _ _ _ => rfl) fun e => respects_unless (couples_fail hR _) ?_
  refine couples_get (fun _ _ _ => rfl) fun e => respects_bind (couples_reduceWhile _ _) fun _ => ?_
  rintro ⟨stream, operands, operators, wants, afterVariable, parentheses⟩ _ ⟨t, ht, rfl⟩
  rw [get_bind, get_bind]
  cases operands with
  | nil => exact couples_fail hR _ _ _ ⟨t, ht, rfl⟩
  | cons n rest =>
    dsimp only
    rw [set_bind, set_bind]
    split
    · exact .ok ⟨t, ht, rfl⟩
    · exact couples_fail hR _ _ _ ⟨t, ht, rfl⟩

theorem couples_tree : Couples R (tree symbols) := by
  rintro e _ ⟨t, ht, rfl⟩
  obtain ⟨he, hf⟩ := hR.endsAhead _ _ ht
  unfold tree
  rw [get_bind, get_bind]
  refine Matches.bind ?_ fun _ => couples_finish hR
  exact matches_bounded (couples_steps hR) (fun _ hk => steps_congr he (Nat.le_refl _) hk)
    (fun _ hk => steps_congr hf (Nat.le_refl _) hk) ⟨t, ht, rfl⟩

end Expression

end Offside
