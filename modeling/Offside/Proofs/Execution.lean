/-!
# Runs of an action

An action changes a state and ends with a result or an error. A successful run of a sequence of actions
is made of successful runs of its parts.
-/

namespace Offside.Execution

set_option autoImplicit false

variable {ε σ α β : Type}

theorem bind_apply (x : EStateM ε σ α) (f : α → EStateM ε σ β) (s : σ) :
    (x >>= f) s =
      match x s with
      | .ok a s' => f a s'
      | .error e s' => .error e s' := rfl

theorem pure_apply (a : α) (s : σ) : (pure a : EStateM ε σ α) s = .ok a s := rfl

theorem set_apply (s s' : σ) : (set s' : EStateM ε σ Unit) s = .ok () s' := rfl

theorem modify_apply (f : σ → σ) (s : σ) : (modify f : EStateM ε σ Unit) s = .ok () (f s) := rfl

theorem throw_apply (e : ε) (s : σ) : (throw e : EStateM ε σ α) s = .error e s := rfl

theorem get_bind (f : σ → EStateM ε σ α) (s : σ) : (get >>= f) s = f s s := rfl

theorem set_bind (s₁ : σ) (f : Unit → EStateM ε σ α) (s : σ) : (set s₁ >>= f) s = f () s₁ := rfl

theorem modify_bind (g : σ → σ) (f : Unit → EStateM ε σ α) (s : σ) :
    (modify g >>= f) s = f () (g s) := rfl

theorem bind_eq_ok {x : EStateM ε σ α} {f : α → EStateM ε σ β} {s s' : σ} {b : β} :
    (x >>= f) s = .ok b s' ↔ ∃ a s₁, x s = .ok a s₁ ∧ f a s₁ = .ok b s' := by
  rw [bind_apply]
  cases hx : x s with
  | ok a s₁ =>
    constructor
    · exact fun h => ⟨a, s₁, rfl, h⟩
    · rintro ⟨_, _, h, hf⟩
      cases h
      exact hf
  | error e s₁ =>
    constructor
    · exact fun h => nomatch h
    · rintro ⟨_, _, h, _⟩
      cases h

theorem bind_unit_eq_ok {x : EStateM ε σ Unit} {f : Unit → EStateM ε σ β} {s s' : σ} {b : β} :
    (x >>= f) s = .ok b s' ↔ ∃ s₁, x s = .ok () s₁ ∧ f () s₁ = .ok b s' := by
  rw [bind_eq_ok]
  constructor
  · rintro ⟨⟨⟩, s₁, h⟩
    exact ⟨s₁, h⟩
  · rintro ⟨s₁, h⟩
    exact ⟨(), s₁, h⟩

theorem bind_eq_error {x : EStateM ε σ α} {f : α → EStateM ε σ β} {s s' : σ} {e : ε} :
    (x >>= f) s = .error e s' ↔ x s = .error e s' ∨ ∃ a s₁, x s = .ok a s₁ ∧ f a s₁ = .error e s' := by
  rw [bind_apply]
  cases hx : x s with
  | ok a s₁ =>
    constructor
    · exact fun h => .inr ⟨a, s₁, rfl, h⟩
    · rintro (h | ⟨_, _, h, hf⟩)
      · cases h
      · cases h
        exact hf
  | error e₁ s₁ =>
    constructor
    · intro h
      cases h
      exact .inl rfl
    · rintro (h | ⟨_, _, h, -⟩)
      · cases h
        rfl
      · cases h

/-- What a computation without a state comes to, when only a part of its result is shown. -/
theorem exists_ok_of_map {x : Except ε α} {f : α → β} {b : β} (h : (x.map f).toOption = some b) :
    ∃ a, x = .ok a ∧ f a = b := by
  cases x with
  | error e => cases h
  | ok a => exact ⟨a, rfl, Option.some.inj h⟩

end Offside.Execution
