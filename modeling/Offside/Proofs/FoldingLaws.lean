import Offside.Proofs.TypeSoundness

/-!
# What folding keeps

A tree that has a value has the type of the value, although the folder and the type checker have each their
own rules. So folding changes no type, and what is folded once has nothing left to fold.
-/

namespace Offside

set_option autoImplicit false

/-! ## Operations on values -/

namespace Arithmetic

/-- Arithmetic never compares: an operation has the type of its operands. -/
theorem group_ne_relational {o : Operator} {a : Arithmetic} (h : ofOperator? o = some a) :
    o.group ≠ .relational := by
  cases o <;> cases h <;> decide

theorem type_apply {a : Arithmetic} {place : Location} {l r : Literal} {v : Value}
    (h : a.apply place l r = .ok v) : v.type = l.type := by
  unfold apply at h
  unfold Literal.type
  split at h
  case h_1 hl _ =>
    cases h
    rw [hl]
    rfl
  case h_2 hl _ =>
    split at h
    · cases h
      rw [hl]
      rfl
    · cases h
  case h_3 hl _ =>
    cases h
    rw [hl]
    rfl
  case h_4 hl _ =>
    cases h
    rw [hl]
    rfl
  case h_5 => cases h

/-- Division by zero is reported at the operator, an operand that is not allowed at the left one. -/
theorem location_apply {a : Arithmetic} {place : Location} {l r : Literal} {d : Diagnostic}
    (h : a.apply place l r = .error d) : d.location = place ∨ d.location = l.location := by
  unfold apply at h
  split at h
  case h_2 =>
    split at h
    · cases h
    · cases h
      exact .inl rfl
  case h_5 =>
    cases h
    exact .inr rfl
  all_goals cases h

end Arithmetic

namespace Node

variable {o : Operator} {left right n m : Node} {place : Location} {l : Literal} {d : Diagnostic}

/-! ## The value of an operation -/

theorem value?_binary_ok (h : (binary o left right place).value? = .ok (some l)) :
    ∃ x y a v, left.value? = .ok (some x) ∧ right.value? = .ok (some y) ∧ x.type = y.type ∧
      Arithmetic.ofOperator? o = some a ∧ a.apply place x y = .ok v ∧ l = ⟨v, x.location⟩ := by
  rw [value?] at h
  rcases hl : left.value? with e | _ | x
  · simp [hl, bind, Except.bind] at h
  · simp [hl, bind, Except.bind, pure, Except.pure] at h
  · rcases hr : right.value? with e | _ | y
    · simp [hl, hr, bind, Except.bind] at h
    · simp [hl, hr, bind, Except.bind, pure, Except.pure] at h
    · by_cases htype : x.type = y.type
      · cases ha : Arithmetic.ofOperator? o with
        | none => simp [hl, hr, htype, ha, bind, Except.bind, pure, Except.pure] at h
        | some a =>
          cases hv : a.apply place x y with
          | error e => simp [hl, hr, htype, ha, hv, bind, Except.bind] at h
          | ok v =>
            simp only [hl, hr, htype, ha, hv, bind, Except.bind, pure, Except.pure, ne_eq,
              not_true_eq_false, if_false, Except.ok.injEq, Option.some.injEq] at h
            exact ⟨x, y, a, v, rfl, rfl, htype, rfl, hv, h.symm⟩
      · simp [hl, hr, htype, bind, Except.bind, throw, throwThe, MonadExceptOf.throw] at h

theorem value?_binary_error (h : (binary o left right place).value? = .error d) :
    left.value? = .error d ∨ right.value? = .error d ∨
      ∃ x, left.value? = .ok (some x) ∧ (d.location = place ∨ d.location = x.location) := by
  rw [value?] at h
  rcases hl : left.value? with e | _ | x
  · simp only [hl, bind, Except.bind, Except.error.injEq] at h
    exact .inl (congrArg _ h)
  · simp [hl, bind, Except.bind, pure, Except.pure] at h
  · rcases hr : right.value? with e | _ | y
    · simp only [hl, hr, bind, Except.bind, Except.error.injEq] at h
      exact .inr (.inl (congrArg _ h))
    · simp [hl, hr, bind, Except.bind, pure, Except.pure] at h
    · refine .inr (.inr ⟨x, rfl, ?_⟩)
      by_cases htype : x.type = y.type
      · cases ha : Arithmetic.ofOperator? o with
        | none => simp [hl, hr, htype, ha, bind, Except.bind, pure, Except.pure] at h
        | some a =>
          cases hv : a.apply place x y with
          | error e =>
            simp only [hl, hr, htype, ha, hv, bind, Except.bind, ne_eq, not_true_eq_false, if_false,
              Except.error.injEq] at h
            exact Arithmetic.location_apply (hv.trans (congrArg _ h))
          | ok v => simp [hl, hr, htype, ha, hv, bind, Except.bind, pure, Except.pure] at h
      · simp only [hl, hr, htype, bind, Except.bind, ne_eq, not_false_eq_true, if_true] at h
        cases h
        exact .inl rfl

/-! ## Types and values -/

/-- The two rule sets agree wherever the folder finds a value. -/
theorem type?_of_value? (h : n.value? = .ok (some l)) : n.type? = .ok l.type := by
  fun_induction value? n generalizing l with
  | case1 k =>
    cases h
    rfl
  | case2 o left right place ihleft ihright =>
    obtain ⟨x, y, a, v, hx, hy, hxy, ha, hv, rfl⟩ := value?_binary_ok h
    refine type?_binary.mpr ⟨x.type, ihleft hx, ?_, ?_⟩
    · rw [hxy]
      exact ihright hy
    · rw [if_neg (Arithmetic.group_ne_relational ha)]
      exact Arithmetic.type_apply hv
  | case3 => cases h

theorem type?_fold (h : n.fold = .ok m) : m.type? = n.type? := by
  rcases fold_eq_ok h with rfl | ⟨l, hl, rfl⟩
  · rfl
  · exact (type?_of_value? hl).symm

theorem fold_fold (h : n.fold = .ok m) : m.fold = .ok m := by
  rcases fold_eq_ok h with rfl | ⟨l, -, rfl⟩
  · exact h
  · rfl

end Node

end Offside
