import Mathlib.Data.Int.ModEq
import Offside.Proofs.ConstantValues

/-!
# Whole numbers in 32 bits

Sums, differences and products of integers may be computed as if there were no bounds and cut to 32 bits once, at
the end. A division is exact, except for the one quotient that 32 bits do not hold.
-/

namespace Offside

set_option autoImplicit false

/-- The numbers that 32 bits hold. -/
def InWord (n : Int) : Prop := -2 ^ 31 ≤ n ∧ n < 2 ^ 31

theorem inWord_toInt (n : Int32) : InWord n.toInt := ⟨n.le_toInt, n.toInt_lt⟩

/-- No two numbers that 32 bits hold have the same low 32 bits. -/
theorem InWord.eq_of_modEq {m n : Int} (hm : InWord m) (hn : InWord n) (h : m ≡ n [ZMOD 2 ^ 32]) : m = n := by
  obtain ⟨hmlow, hmhigh⟩ := hm
  obtain ⟨hnlow, hnhigh⟩ := hn
  have hdvd := h.dvd
  omega

theorem modEq_ofInt (n : Int) : (Int32.ofInt n).toInt ≡ n [ZMOD 2 ^ 32] := by
  rw [Int32.toInt_ofInt]
  exact Int.bmod_emod

/-- `q` and `m` are the quotient and the remainder of `l` by `r`. -/
structure IsDivision (l r q m : Int32) : Prop where
  exact : q.toInt * r.toInt + m.toInt ≡ l.toInt [ZMOD 2 ^ 32]
  small : |m.toInt| < |r.toInt|
  sign : m.toInt = 0 ∨ m.toInt.sign = l.toInt.sign
  truncates : ¬ (l = .minValue ∧ r = -1) → q.toInt = l.toInt.tdiv r.toInt
  wraps : l = .minValue → r = -1 → q = .minValue ∧ m = 0

theorem isDivision_of_ne_zero {l r : Int32} (hr : r ≠ 0) :
    IsDivision l r (.ofInt (l.toInt.tdiv r.toInt)) (.ofInt (l.toInt.tmod r.toInt)) := by
  have hnonzero : r.toInt ≠ 0 := fun hzero => hr (Int32.toInt_inj.mp hzero)
  have hm : (Int32.ofInt (l.toInt.tmod r.toInt)).toInt = l.toInt.tmod r.toInt := by
    rw [← Int32.toInt_mod, Int32.ofInt_toInt]
  have hq : Int32.ofInt (l.toInt.tdiv r.toInt) = l / r :=
    Int32.toInt_inj.mp (Int32.toInt_ofInt.trans (Int32.toInt_div l r).symm)
  constructor
  case exact =>
    have hquotient := (modEq_ofInt (l.toInt.tdiv r.toInt)).mul_right r.toInt
    have hsum := hquotient.add (modEq_ofInt (l.toInt.tmod r.toInt))
    rwa [Int.tdiv_mul_add_tmod] at hsum
  case small =>
    rw [hm, Int.abs_eq_natAbs, Int.abs_eq_natAbs, Int.natAbs_tmod]
    have hlt := Nat.mod_lt l.toInt.natAbs (Int.natAbs_pos.mpr hnonzero)
    omega
  case sign =>
    rw [hm, Int.sign_tmod]
    by_cases hdvd : r.toInt ∣ l.toInt
    · exact .inl (Int.tmod_eq_zero_of_dvd hdvd)
    · exact .inr (if_neg hdvd)
  case truncates =>
    intro hfits
    rw [hq]
    by_cases hl : l = .minValue
    · exact Int32.toInt_div_of_ne_right l r fun hminus => hfits ⟨hl, hminus⟩
    · exact Int32.toInt_div_of_ne_left l r hl
  case wraps =>
    rintro rfl rfl
    exact ⟨by decide, by decide⟩

namespace Node

/-- What a tree of integers comes to if they have no bounds. -/
inductive Totals : Node → Int → Prop where
  | literal {n : Int32} {place : Location} : Totals (.literal ⟨.int n, place⟩) n.toInt
  | add {left right : Node} {x y : Int} {place : Location} : Totals left x → Totals right y →
      Totals (.binary .add left right place) (x + y)
  | sub {left right : Node} {x y : Int} {place : Location} : Totals left x → Totals right y →
      Totals (.binary .sub left right place) (x - y)
  | mul {left right : Node} {x y : Int} {place : Location} : Totals left x → Totals right y →
      Totals (.binary .mul left right place) (x * y)

variable {n left right : Node} {o : Operator} {l r : Int32} {place start start' : Location}

theorem fold_eq_literal {k : Literal} : n.fold = .ok (.literal k) ↔ n.value? = .ok (some k) := by
  constructor
  · intro h
    rcases fold_eq_ok h with rfl | ⟨k', hk, heq⟩
    · rfl
    · cases heq
      exact hk
  · intro h
    rw [fold, h]
    rfl

theorem value?_integers {z : Int} (hleft : left.value? = .ok (some ⟨.int l, start⟩))
    (hright : right.value? = .ok (some ⟨.int r, start'⟩)) (hz : o.unbounded? l.toInt r.toInt = some z) :
    (binary o left right place).value? = .ok (some ⟨.int (.ofInt z), start⟩) := by
  have ho : o ∈ Operator.arithmetic := by
    cases o <;> first | decide | cases hz
  obtain ⟨a, ha⟩ := Operator.mem_arithmetic.mp ho
  rw [value?_binary hleft hright rfl ha, Arithmetic.apply_of_yields ha (.int hz)]
  rfl

/-- Cutting each operand to 32 bits first makes no difference to the low 32 bits of the result. -/
theorem value?_modEq {x y z : Int}
    (hleft : ∃ (l : Int32) (start : Location), left.value? = .ok (some ⟨.int l, start⟩) ∧ l.toInt ≡ x [ZMOD 2 ^ 32])
    (hright : ∃ (r : Int32) (start : Location), right.value? = .ok (some ⟨.int r, start⟩) ∧ r.toInt ≡ y [ZMOD 2 ^ 32])
    (hz : ∀ l r : Int, l ≡ x [ZMOD 2 ^ 32] → r ≡ y [ZMOD 2 ^ 32] →
      ∃ w, o.unbounded? l r = some w ∧ w ≡ z [ZMOD 2 ^ 32]) :
    ∃ (k : Int32) (start : Location),
      (binary o left right place).value? = .ok (some ⟨.int k, start⟩) ∧ k.toInt ≡ z [ZMOD 2 ^ 32] := by
  obtain ⟨l, start, hleft, hl⟩ := hleft
  obtain ⟨r, _, hright, hr⟩ := hright
  obtain ⟨w, hw, hwz⟩ := hz _ _ hl hr
  exact ⟨_, start, value?_integers hleft hright hw, (modEq_ofInt w).trans hwz⟩

theorem Totals.value? {z : Int} (h : n.Totals z) :
    ∃ (k : Int32) (start : Location), n.value? = .ok (some ⟨.int k, start⟩) ∧ k.toInt ≡ z [ZMOD 2 ^ 32] := by
  induction h with
  | literal => exact ⟨_, _, rfl, .rfl⟩
  | add _ _ ihleft ihright => exact value?_modEq ihleft ihright fun _ _ hl hr => ⟨_, rfl, hl.add hr⟩
  | sub _ _ ihleft ihright => exact value?_modEq ihleft ihright fun _ _ hl hr => ⟨_, rfl, hl.sub hr⟩
  | mul _ _ ihleft ihright => exact value?_modEq ihleft ihright fun _ _ hl hr => ⟨_, rfl, hl.mul hr⟩

theorem value?_division (hleft : left.value? = .ok (some ⟨.int l, start⟩))
    (hright : right.value? = .ok (some ⟨.int r, start'⟩)) (hr : r ≠ 0) :
    (binary .div left right place).value? = .ok (some ⟨.int (.ofInt (l.toInt.tdiv r.toInt)), start⟩) ∧
    (binary .mod left right place).value? = .ok (some ⟨.int (.ofInt (l.toInt.tmod r.toInt)), start⟩) := by
  have hnonzero : r.toInt ≠ 0 := fun hzero => hr (Int32.toInt_inj.mp hzero)
  exact ⟨value?_integers hleft hright (if_neg hnonzero), value?_integers hleft hright (if_neg hnonzero)⟩

/--
Folding sums, differences and products of integers gives the one number of 32 bits that agrees with the exact
result up to multiples of `2 ^ 32`; folding a quotient or a remainder by anything but zero divides.
-/
theorem fold_integers :
    (∀ {n : Node} {z : Int}, n.Totals z → ∃ (k : Int32) (start : Location),
      n.fold = .ok (.literal ⟨.int k, start⟩) ∧ InWord k.toInt ∧ k.toInt ≡ z [ZMOD 2 ^ 32] ∧
      ∀ w, InWord w → w ≡ z [ZMOD 2 ^ 32] → w = k.toInt) ∧
    (∀ {left right : Node} {l r : Int32} {place start start' : Location},
      left.fold = .ok (.literal ⟨.int l, start⟩) → right.fold = .ok (.literal ⟨.int r, start'⟩) → r ≠ 0 →
      ∃ q m, (binary .div left right place).fold = .ok (.literal ⟨.int q, start⟩) ∧
        (binary .mod left right place).fold = .ok (.literal ⟨.int m, start⟩) ∧ IsDivision l r q m) := by
  constructor
  · intro n z h
    obtain ⟨k, start, hvalue, hk⟩ := h.value?
    refine ⟨k, start, fold_eq_literal.mpr hvalue, inWord_toInt k, hk, fun w hw hwz => ?_⟩
    exact hw.eq_of_modEq (inWord_toInt k) (hwz.trans hk.symm)
  · intro left right l r place start start' hleft hright hr
    obtain ⟨hdiv, hmod⟩ :=
      @value?_division _ _ _ _ place _ _ (fold_eq_literal.mp hleft) (fold_eq_literal.mp hright) hr
    exact ⟨_, _, fold_eq_literal.mpr hdiv, fold_eq_literal.mpr hmod, isDivision_of_ne_zero hr⟩

/-- `(2147483647 + 1) * 3` goes around, and the least integer divided by `-1` is itself. -/
theorem fold_integers_around :
    let number (n : Int32) (column : Nat) : Node := .literal ⟨.int n, ⟨"", 1, column⟩⟩
    let sum : Node := .binary .add (number 2147483647 2) (number 1 15) ⟨"", 1, 13⟩
    let n : Node := .binary .mul sum (number 3 20) ⟨"", 1, 18⟩
    n.Totals 6442450944 ∧ n.fold = .ok (number .minValue 2) ∧
      (∀ w, InWord w → w ≡ 6442450944 [ZMOD 2 ^ 32] → w = -2147483648) ∧
      sum.fold = .ok (number .minValue 2) ∧ (-1 : Int32) ≠ 0 ∧
      (binary .div sum (number (-1) 20) ⟨"", 1, 18⟩).fold = .ok (number .minValue 2) ∧
      (binary .mod sum (number (-1) 20) ⟨"", 1, 18⟩).fold = .ok (number 0 2) ∧
      IsDivision .minValue (-1) .minValue 0 := by
  intro number sum n
  have hn : n.Totals 6442450944 := .mul (.add .literal .literal) .literal
  have hfold : n.fold = .ok (number .minValue 2) := rfl
  have hsum : sum.fold = .ok (number .minValue 2) := rfl
  have hone : (number (-1) 20).fold = .ok (number (-1) 20) := rfl
  have hnonzero : (-1 : Int32) ≠ 0 := by decide
  obtain ⟨k, start, hk, -, -, hunique⟩ := fold_integers.1 hn
  obtain ⟨q, m, hdiv, hmod, hdivision⟩ := @fold_integers.2 _ _ _ _ ⟨"", 1, 18⟩ _ _ hsum hone hnonzero
  obtain ⟨rfl, rfl⟩ := hdivision.wraps rfl rfl
  cases hfold.symm.trans hk
  exact ⟨hn, hfold, hunique, hsum, hnonzero, hdiv, hmod, hdivision⟩

end Node

end Offside
