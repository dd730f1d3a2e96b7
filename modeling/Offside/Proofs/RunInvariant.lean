import Offside.Proofs.Execution

/-!
# What every run of an action keeps

From a state with an invariant an action goes to another one, with a result of the kind that is stated, or it
ends with an error of the kind that is stated. An error leaves no state to say anything about.
-/

namespace Offside.Execution

set_option autoImplicit false

variable {ε σ α β : Type} {Inv : σ → Prop} {Err : ε → Prop}

def Keeps (Inv : σ → Prop) (Err : ε → Prop) (x : EStateM ε σ α) (Q : α → Prop) : Prop :=
  ∀ s, Inv s →
    match x s with
    | .ok a s' => Q a ∧ Inv s'
    | .error e _ => Err e

variable {Q : α → Prop} {R : β → Prop} {x : EStateM ε σ α}

theorem Keeps.error {s s' : σ} {e : ε} (h : Keeps Inv Err x Q) (hs : Inv s)
    (he : x s = .error e s') : Err e := by
  have hx := h s hs
  rw [he] at hx
  exact hx

theorem Keeps.imp {Q' : α → Prop} (h : Keeps Inv Err x Q) (hQ : ∀ a, Q a → Q' a) :
    Keeps Inv Err x Q' := by
  intro s hs
  have hx := h s hs
  cases hrun : x s with
  | ok a s' =>
    rw [hrun] at hx
    exact ⟨hQ a hx.1, hx.2⟩
  | error e s' =>
    rw [hrun] at hx
    exact hx

theorem keeps_pure {a : α} (h : Q a) : Keeps Inv Err (pure a) Q := fun _ hs => ⟨h, hs⟩

theorem keeps_bind {f : α → EStateM ε σ β} (hx : Keeps Inv Err x Q)
    (hf : ∀ a, Q a → Keeps Inv Err (f a) R) : Keeps Inv Err (x >>= f) R := by
  intro s hs
  have hfirst := hx s hs
  rw [bind_apply]
  cases hrun : x s with
  | ok a s' =>
    rw [hrun] at hfirst
    exact hf a hfirst.1 s' hfirst.2
  | error e s' =>
    rw [hrun] at hfirst
    exact hfirst

theorem keeps_throw {e : ε} (h : Err e) : Keeps Inv Err (throw e : EStateM ε σ α) Q := fun _ _ => h

theorem keeps_get : Keeps Inv Err (get : EStateM ε σ σ) Inv := fun _ hs => ⟨hs, hs⟩

theorem keeps_set {s : σ} (h : Inv s) :
    Keeps Inv Err (set s : EStateM ε σ Unit) fun _ => True := fun _ _ => ⟨trivial, h⟩

theorem keeps_modify {f : σ → σ} (h : ∀ s, Inv s → Inv (f s)) :
    Keeps Inv Err (modify f : EStateM ε σ Unit) fun _ => True := fun s hs => ⟨trivial, h s hs⟩

theorem keeps_modifyGet {f : σ → α × σ} (h : ∀ s, Inv s → Q (f s).1 ∧ Inv (f s).2) :
    Keeps Inv Err (modifyGet f : EStateM ε σ α) Q := fun s hs => h s hs

/-- A check that fails ends the run, so nothing is known of it but its error. -/
theorem keeps_unless {c : Prop} [Decidable c] {y : EStateM ε σ PUnit}
    (hy : Keeps Inv Err y fun _ => False) (hx : Keeps Inv Err x Q) :
    Keeps Inv Err (do
      if c then y
      x) Q := by
  by_cases hc : c
  · simp only [hc, if_true]
    exact keeps_bind hy fun _ h => h.elim
  · simp only [hc, if_false]
    exact hx

end Offside.Execution
