import Mathlib.Algebra.Order.Ring.Abs
import Offside.Proofs.FoldingLaws

/-!
# The value of a constant expression

What a tree of literals and arithmetic operators is worth is said by rules that know nothing of places. A tree
that is worth nothing has a first node that fails, operands before operators and left before right. Folding
finds the value or reports that node; any other tree it leaves as it is.
-/

namespace Offside

set_option autoImplicit false

open Floating (saturate shorten)

/-! ## Operations -/

namespace Operator

def arithmetic : List Operator := [add, sub, mul, div, mod, pow]

/-- The types of operands that an arithmetic operator takes. -/
def Allows (o : Operator) (type : DataType) : Prop :=
  type ∈ [DataType.int, .float, .double] ∨ o = add ∧ type = .string

/-- What an operation on whole numbers comes to if they have no bounds. -/
def unbounded? : Operator → Int → Int → Option Int
  | add, l, r => some (l + r)
  | sub, l, r => some (l - r)
  | mul, l, r => some (l * r)
  | div, l, r => if r = 0 then none else some (l.tdiv r)
  | mod, l, r => if r = 0 then none else some (l.tmod r)
  | _, _, _ => none

end Operator

/-- The value of an operation. Integers keep the low 32 bits of the exact result, except for powers: one that
32 bits cannot hold comes to the bound that it is beyond, and one with a negative exponent is cut off at the
point. What floating point operations come to is up to their format. -/
inductive Yields : Operator → Value → Value → Value → Prop where
  | int {o : Operator} {l r : Int32} {n : Int} : o.unbounded? l.toInt r.toInt = some n →
      Yields o (.int l) (.int r) (.int (.ofInt n))
  | power {l r : Int32} : 0 ≤ r.toInt →
      Yields .pow (.int l) (.int r) (.int (saturate (l.toInt ^ r.toInt.toNat)))
  | inverse {l r : Int32} : r.toInt < 0 → l ≠ 0 →
      Yields .pow (.int l) (.int r) (.int (.ofInt (Int.tdiv 1 (l.toInt ^ r.toInt.natAbs))))
  | infinite {r : Int32} : r.toInt < 0 → Yields .pow (.int 0) (.int r) (.int .maxValue)
  | float {o : Operator} {a : Arithmetic} {l r : Float32} : Arithmetic.ofOperator? o = some a →
      Yields o (.float l) (.float r) (.float (a.float l r))
  | double {o : Operator} {a : Arithmetic} {l r : Float} : Arithmetic.ofOperator? o = some a →
      Yields o (.double l) (.double r) (.double (a.double l r))
  | string {l r : String} : Yields .add (.string l) (.string r) (.string (l ++ r))

theorem Yields.type_eq {o : Operator} {l r v : Value} (h : Yields o l r v) : l.type = r.type := by
  cases h <;> rfl

theorem Operator.mem_arithmetic {o : Operator} :
    o ∈ arithmetic ↔ ∃ a, Arithmetic.ofOperator? o = some a := by
  cases o <;> simp [arithmetic, Arithmetic.ofOperator?]

/-! ## Powers -/

namespace Floating

/-- An exponent that is shortened makes no difference that 32 bits can show. -/
theorem pow_shorten (l : Int) (n : Nat) :
    l ^ shorten n = l ^ n ∨ (2 ^ 32 ≤ l ^ shorten n ∧ 2 ^ 32 ≤ l ^ n) ∨
      (l ^ shorten n ≤ -2 ^ 32 ∧ l ^ n ≤ -2 ^ 32) := by
  unfold shorten
  split
  · exact .inl rfl
  · next hn =>
    obtain ⟨k, hk⟩ : ∃ k, n = 32 + n % 2 + 2 * k := ⟨(n - 32) / 2, by omega⟩
    have hpow : l ^ n = l ^ (32 + n % 2) * (l ^ 2) ^ k := by rw [← pow_mul, ← pow_add, ← hk]
    by_cases hsmall : l.natAbs ≤ 1
    · left
      obtain rfl | rfl | rfl : l = 0 ∨ l = 1 ∨ l = -1 := by omega
      · rw [zero_pow (by omega), zero_pow (by omega)]
      · rw [one_pow, one_pow]
      · rw [hpow, neg_one_sq, one_pow, mul_one]
    · right
      have habs : 2 ≤ |l| := by
        rw [Int.abs_eq_natAbs]
        omega
      have hsquare : 1 ≤ (l ^ 2) ^ k := one_le_pow₀ ((one_le_sq_iff_one_le_abs l).mpr (by omega))
      have hlarge : 2 ^ 32 ≤ |l ^ (32 + n % 2)| := by
        rw [abs_pow]
        calc (2 : Int) ^ 32 ≤ |l| ^ 32 := pow_le_pow_left₀ (by omega) (by omega) 32
          _ ≤ |l| ^ (32 + n % 2) := pow_le_pow_right₀ (by omega) (by omega)
      rw [hpow]
      rcases le_abs.mp hlarge with hpos | hneg
      · have hgrows := le_mul_of_one_le_right (show 0 ≤ l ^ (32 + n % 2) by omega) hsquare
        exact .inl ⟨hpos, hpos.trans hgrows⟩
      · have hfalls := mul_le_of_one_le_right (show l ^ (32 + n % 2) ≤ 0 by omega) hsquare
        exact .inr ⟨by omega, hfalls.trans (by omega)⟩

theorem saturate_of_ge {n : Int} (h : 2 ^ 32 ≤ n) : saturate n = .maxValue := by
  rw [saturate, Int32.toInt_minValue, Int32.toInt_maxValue, if_neg (by omega), if_pos (by omega)]

theorem saturate_of_le {n : Int} (h : n ≤ -2 ^ 32) : saturate n = .minValue := by
  rw [saturate, Int32.toInt_minValue, if_pos (by omega)]

theorem saturate_shorten (l : Int) (n : Nat) : saturate (l ^ shorten n) = saturate (l ^ n) := by
  rcases pow_shorten l n with heq | ⟨hshort, hlong⟩ | ⟨hshort, hlong⟩
  · rw [heq]
  · rw [saturate_of_ge hshort, saturate_of_ge hlong]
  · rw [saturate_of_le hshort, saturate_of_le hlong]

theorem one_tdiv {n : Int} (h : 1 < n.natAbs) : Int.tdiv 1 n = 0 := by
  rw [← Int.natAbs_eq_zero, Int.natAbs_tdiv]
  exact Nat.div_eq_of_lt h

theorem one_tdiv_shorten (l : Int) (n : Nat) : Int.tdiv 1 (l ^ shorten n) = Int.tdiv 1 (l ^ n) := by
  rcases pow_shorten l n with heq | ⟨hshort, hlong⟩ | ⟨hshort, hlong⟩
  · rw [heq]
  · rw [one_tdiv (by omega), one_tdiv (by omega)]
  · rw [one_tdiv (by omega), one_tdiv (by omega)]

theorem power_of_nonneg {l r : Int32} (hr : 0 ≤ r.toInt) : power l r = saturate (l.toInt ^ r.toInt.toNat) := by
  rw [power, if_pos hr]
  exact saturate_shorten l.toInt r.toInt.toNat

theorem power_of_neg {l r : Int32} (hr : r.toInt < 0) (hl : l ≠ 0) :
    power l r = .ofInt (Int.tdiv 1 (l.toInt ^ r.toInt.natAbs)) := by
  rw [power, if_neg (Int.not_le.mpr hr), if_neg hl]
  exact congrArg Int32.ofInt (one_tdiv_shorten l.toInt r.toInt.natAbs)

end Floating

section Operations

variable {o : Operator} {a : Arithmetic} {x y : Literal} {v : Value} {place : Location}

theorem Arithmetic.int_of_unbounded {l r : Int32} {n : Int} (ha : ofOperator? o = some a)
    (h : o.unbounded? l.toInt r.toInt = some n) : a.int l r = some (.ofInt n) := by
  have hzero : r = 0 ↔ r.toInt = 0 := Int32.toInt_inj.symm
  cases o <;> cases ha
  case add =>
    cases h
    rw [int, Int32.ofInt_add, Int32.ofInt_toInt, Int32.ofInt_toInt]
  case sub =>
    cases h
    rw [int, Int32.ofInt_sub, Int32.ofInt_toInt, Int32.ofInt_toInt]
  case mul =>
    cases h
    rw [int, Int32.ofInt_mul, Int32.ofInt_toInt, Int32.ofInt_toInt]
  case div =>
    rw [Operator.unbounded?, Option.ite_none_left_eq_some] at h
    obtain ⟨hr, hn⟩ := h
    cases hn
    have hquotient := Int32.toInt_inj.mp ((Int32.toInt_div l r).trans Int32.toInt_ofInt.symm)
    rw [int, if_neg (mt hzero.mp hr), hquotient]
  case mod =>
    rw [Operator.unbounded?, Option.ite_none_left_eq_some] at h
    obtain ⟨hr, hn⟩ := h
    cases hn
    rw [int, if_neg (mt hzero.mp hr), ← Int32.toInt_mod, Int32.ofInt_toInt]
  case pow => cases h

theorem Arithmetic.apply_of_yields (ha : ofOperator? o = some a) (h : Yields o x.value y.value v) :
    a.apply place x y = .ok v := by
  obtain ⟨x, _⟩ := x
  obtain ⟨y, _⟩ := y
  cases h with
  | int hexact =>
    have hint := int_of_unbounded ha hexact
    cases a <;> simp only [apply, hint]
  | @power l r hr =>
    cases ha
    simp only [apply, Arithmetic.int, Floating.power_of_nonneg hr]
  | @inverse l r hr hl =>
    cases ha
    simp only [apply, Arithmetic.int, Floating.power_of_neg hr hl]
  | @infinite r hr =>
    cases ha
    simp only [apply, Arithmetic.int, Floating.power, if_neg (Int.not_le.mpr hr), if_true]
  | float ha' =>
    obtain rfl := Option.some.inj (ha.symm.trans ha')
    cases a <;> rfl
  | double ha' =>
    obtain rfl := Option.some.inj (ha.symm.trans ha')
    cases a <;> rfl
  | string =>
    cases ha
    rfl

theorem Arithmetic.apply_of_zero (ha : ofOperator? o = some a) (ho : o = .div ∨ o = .mod) {l : Int32}
    (hx : x.value = .int l) (hy : y.value = .int 0) :
    a.apply place x y = .error ⟨.divisionByZero, place⟩ := by
  rcases ho with rfl | rfl
  · cases ha
    simp [apply, hx, hy, int]
  · cases ha
    simp [apply, hx, hy, int]

theorem Arithmetic.apply_of_not_allows (ha : ofOperator? o = some a) (h : ¬ o.Allows x.type) :
    a.apply place x y = .error ⟨.illegalOperand a.noun x.type, x.location⟩ := by
  unfold apply
  unfold Literal.type at h ⊢
  split
  case h_1 hx _ =>
    refine absurd (.inr ⟨?_, ?_⟩) h
    · cases o <;> cases ha
      rfl
    · rw [hx, Value.type]
  case h_2 hx _ => exact absurd (.inl (by simp [hx, Value.type])) h
  case h_3 hx _ => exact absurd (.inl (by simp [hx, Value.type])) h
  case h_4 hx _ => exact absurd (.inl (by simp [hx, Value.type])) h
  case h_5 => rfl

/-- Two values of one type have a result unless the type is not allowed or a divisor is zero. -/
theorem exists_yields {l r : Value} (ho : o ∈ Operator.arithmetic) (htype : l.type = r.type)
    (hallows : o.Allows l.type) :
    (∃ v, Yields o l r v) ∨ (o = .div ∨ o = .mod) ∧ (∃ n, l = .int n) ∧ r = .int 0 := by
  obtain ⟨a, ha⟩ := Operator.mem_arithmetic.mp ho
  cases l <;> cases r <;> cases htype
  case int.int l r =>
    by_cases hpow : o = .pow
    · subst hpow
      left
      by_cases hr : 0 ≤ r.toInt
      · exact ⟨_, .power hr⟩
      · have hneg := Int.not_le.mp hr
        by_cases hl : l = 0
        · subst hl
          exact ⟨_, .infinite hneg⟩
        · exact ⟨_, .inverse hneg hl⟩
    · cases hexact : o.unbounded? l.toInt r.toInt with
      | some n => exact .inl ⟨_, .int hexact⟩
      | none =>
        right
        cases o <;> cases ha <;> simp [Operator.unbounded?] at hexact hpow ⊢
        all_goals exact Int32.toInt_inj.mp hexact
  case float.float => exact .inl ⟨_, .float ha⟩
  case double.double => exact .inl ⟨_, .double ha⟩
  case string.string =>
    rcases hallows with hmem | ⟨rfl, -⟩
    · simp [Value.type] at hmem
    · exact .inl ⟨_, .string⟩
  all_goals simp [Operator.Allows, Value.type] at hallows

end Operations

/-! ## Trees -/

namespace Node

/-- Literals under arithmetic operators. -/
inductive IsArithmetic : Node → Prop where
  | literal {l : Literal} : IsArithmetic (.literal l)
  | binary {o : Operator} {left right : Node} {place : Location} : o ∈ Operator.arithmetic →
      IsArithmetic left → IsArithmetic right → IsArithmetic (.binary o left right place)

inductive Evaluates : Node → Value → Prop where
  | literal {l : Literal} : Evaluates (.literal l) l.value
  | binary {o : Operator} {left right : Node} {place : Location} {x y v : Value} :
      o ∈ Operator.arithmetic → Evaluates left x → Evaluates right y → Yields o x y v →
      Evaluates (.binary o left right place) v

/-- The place of the leftmost literal. -/
def leftmost? : Node → Option Location
  | .literal l => some l.location
  | .binary _ left _ _ => left.leftmost?
  | _ => none

/-- The operands have values and the operation has none. An operand that is not allowed is reported where the
left operand begins. -/
inductive FailsWith : Node → Diagnostic → Prop where
  | types {o : Operator} {left right : Node} {place : Location} {x y : Value} :
      Evaluates left x → Evaluates right y → x.type ≠ y.type →
      FailsWith (.binary o left right place) ⟨.typeMismatch, place⟩
  | zero {o : Operator} {left right : Node} {place : Location} {l : Int32} : o = .div ∨ o = .mod →
      Evaluates left (.int l) → Evaluates right (.int 0) →
      FailsWith (.binary o left right place) ⟨.divisionByZero, place⟩
  | operand {o : Operator} {a : Arithmetic} {left right : Node} {place start : Location} {x y : Value} :
      Arithmetic.ofOperator? o = some a → Evaluates left x → Evaluates right y → x.type = y.type →
      ¬ o.Allows x.type → left.leftmost? = some start →
      FailsWith (.binary o left right place) ⟨.illegalOperand a.noun x.type, start⟩

/-- The nodes of an expression, operands before operators and left before right. -/
def postorder : Node → List Node
  | .binary o left right place => left.postorder ++ right.postorder ++ [.binary o left right place]
  | n => [n]

/-- The first node that fails. -/
def FirstFails (n : Node) (d : Diagnostic) : Prop :=
  ∃ before m, before ++ [m] <+: n.postorder ∧ (∀ k ∈ before, ∃ v, k.Evaluates v) ∧ m.FailsWith d

/-- What evaluation comes to: a value, at the place of the leftmost literal, or what is wrong. -/
inductive Reference (n : Node) : Except Diagnostic Literal → Prop where
  | value {v : Value} {place : Location} : n.Evaluates v → n.leftmost? = some place →
      Reference n (.ok ⟨v, place⟩)
  | failure {d : Diagnostic} : n.FirstFails d → Reference n (.error d)

section Folding

variable {n m left right : Node} {o : Operator} {place : Location} {d : Diagnostic}

/-! ## Folding finds the value -/

theorem value?_binary {a : Arithmetic} {x y : Literal} (hleft : left.value? = .ok (some x))
    (hright : right.value? = .ok (some y)) (htype : x.type = y.type)
    (ha : Arithmetic.ofOperator? o = some a) :
    (binary o left right place).value? = (a.apply place x y).map fun v => some ⟨v, x.location⟩ := by
  rw [value?, hleft, hright]
  cases hv : a.apply place x y <;> simp [htype, ha, hv, bind, Except.bind, pure, Except.pure, Except.map]

theorem Evaluates.value? {v : Value} (h : n.Evaluates v) :
    ∃ place, n.leftmost? = some place ∧ n.value? = .ok (some ⟨v, place⟩) := by
  induction h with
  | literal => exact ⟨_, rfl, rfl⟩
  | @binary o left right place x y v ho _ _ hv ihleft ihright =>
    obtain ⟨a, ha⟩ := Operator.mem_arithmetic.mp ho
    obtain ⟨start, hleftmost, hleft⟩ := ihleft
    obtain ⟨_, -, hright⟩ := ihright
    refine ⟨start, hleftmost, ?_⟩
    rw [value?_binary hleft hright hv.type_eq ha, Arithmetic.apply_of_yields ha hv]
    rfl

/-! ## Folding reports the first failure -/

theorem FailsWith.value? (h : n.FailsWith d) : n.value? = .error d := by
  cases h with
  | types hx hy htype =>
    obtain ⟨_, -, hleft⟩ := hx.value?
    obtain ⟨_, -, hright⟩ := hy.value?
    rw [Node.value?, hleft, hright]
    exact if_pos htype
  | @zero o _ _ _ _ ho hx hy =>
    obtain ⟨_, -, hleft⟩ := hx.value?
    obtain ⟨_, -, hright⟩ := hy.value?
    have hmem : o ∈ Operator.arithmetic := by rcases ho with rfl | rfl <;> decide
    obtain ⟨a, ha⟩ := Operator.mem_arithmetic.mp hmem
    rw [value?_binary hleft hright rfl ha, Arithmetic.apply_of_zero ha ho rfl rfl]
    rfl
  | operand ha hx hy htype hallows hleftmost =>
    obtain ⟨_, hplace, hleft⟩ := hx.value?
    obtain ⟨_, -, hright⟩ := hy.value?
    obtain rfl := Option.some.inj (hplace.symm.trans hleftmost)
    rw [value?_binary hleft hright htype ha, Arithmetic.apply_of_not_allows ha]
    · rfl
    · exact hallows

theorem self_mem_postorder (n : Node) : n ∈ n.postorder := by
  cases n <;> simp [postorder]

theorem Evaluates.postorder {v : Value} (h : n.Evaluates v) : ∀ k ∈ n.postorder, ∃ w, k.Evaluates w := by
  induction h with
  | literal => exact List.forall_mem_singleton.mpr ⟨_, .literal⟩
  | binary ho hleft hright hv ihleft ihright =>
    refine List.forall_mem_append.mpr ⟨List.forall_mem_append.mpr ⟨ihleft, ihright⟩, ?_⟩
    exact List.forall_mem_singleton.mpr ⟨_, .binary ho hleft hright hv⟩

/-- A list and the element behind it stand in the first of two lists, or the element stands in the second. -/
theorem prefix_concat_cases {before xs ys : List Node} (h : before ++ [m] <+: xs ++ ys) :
    before ++ [m] <+: xs ∨ ∃ more, before = xs ++ more ∧ more ++ [m] <+: ys := by
  rcases List.prefix_or_prefix_of_prefix h (List.prefix_append xs ys) with hxs | hxs
  · exact .inl hxs
  · rcases List.prefix_concat_iff.mp hxs with rfl | ⟨more, rfl⟩
    · exact .inl List.prefix_rfl
    · rw [List.append_assoc, List.prefix_append_right_inj] at h
      exact .inr ⟨more, rfl, h⟩

theorem FirstFails.value? (h : n.FirstFails d) : n.value? = .error d := by
  obtain ⟨before, m, hprefix, hbefore, hfails⟩ := h
  have hself : ∀ {before k}, before ++ [m] <+: [k] → k.value? = .error d := by
    intro before k hk
    obtain ⟨rest, hrest⟩ := hk
    cases before with
    | nil =>
      obtain rfl := (List.cons.inj hrest).1
      exact hfails.value?
    | cons _ before => simp at hrest
  fun_induction Node.postorder n generalizing before with
  | case1 o left right place ihleft ihright =>
    rw [List.append_assoc] at hprefix
    rcases prefix_concat_cases hprefix with hleft | ⟨more, rfl, hmore⟩
    · rw [Node.value?, ihleft before hleft hbefore]
      rfl
    · obtain ⟨hbefore, hmoreBefore⟩ := List.forall_mem_append.mp hbefore
      obtain ⟨x, hx⟩ := hbefore left (self_mem_postorder left)
      obtain ⟨_, -, hleft⟩ := hx.value?
      rcases prefix_concat_cases hmore with hright | ⟨more, -, hnode⟩
      · rw [Node.value?, hleft, ihright more hright hmoreBefore]
        rfl
      · exact hself hnode
  | case2 n => exact hself hprefix

theorem Reference.value? {result : Except Diagnostic Literal} (h : n.Reference result) :
    n.value? = result.map some := by
  cases h with
  | value hvalue hplace =>
    obtain ⟨_, hleftmost, hn⟩ := hvalue.value?
    obtain rfl := Option.some.inj (hleftmost.symm.trans hplace)
    exact hn
  | failure hfails => exact hfails.value?

/-! ## Every constant expression has a value or a failure -/

theorem FirstFails.of_left (h : left.FirstFails d) : (binary o left right place).FirstFails d := by
  obtain ⟨before, m, hprefix, hbefore, hfails⟩ := h
  refine ⟨before, m, hprefix.trans ?_, hbefore, hfails⟩
  rw [postorder, List.append_assoc]
  exact List.prefix_append _ _

theorem FirstFails.of_right {x : Value} (hx : left.Evaluates x) (h : right.FirstFails d) :
    (binary o left right place).FirstFails d := by
  obtain ⟨before, m, hprefix, hbefore, hfails⟩ := h
  refine ⟨left.postorder ++ before, m, ?_, List.forall_mem_append.mpr ⟨hx.postorder, hbefore⟩, hfails⟩
  rw [postorder, List.append_assoc, List.append_assoc, List.prefix_append_right_inj]
  exact hprefix.trans (List.prefix_append _ _)

theorem FailsWith.firstFails {x y : Value} (hx : left.Evaluates x) (hy : right.Evaluates y)
    (h : (binary o left right place).FailsWith d) : (binary o left right place).FirstFails d :=
  ⟨left.postorder ++ right.postorder, _, List.prefix_rfl,
    List.forall_mem_append.mpr ⟨hx.postorder, hy.postorder⟩, h⟩

theorem IsArithmetic.exists_reference (h : n.IsArithmetic) : ∃ result, n.Reference result := by
  induction h with
  | literal => exact ⟨_, .value .literal rfl⟩
  | @binary o left right place ho _ _ ihleft ihright =>
    obtain ⟨_, @⟨x, start, hx, hleftmost⟩ | hleft⟩ := ihleft
    case failure => exact ⟨_, .failure hleft.of_left⟩
    obtain ⟨_, @⟨y, -, hy, -⟩ | hright⟩ := ihright
    case failure => exact ⟨_, .failure (hright.of_right hx)⟩
    obtain ⟨a, ha⟩ := Operator.mem_arithmetic.mp ho
    by_cases htype : x.type = y.type
    · by_cases hallows : o.Allows x.type
      · rcases exists_yields ho htype hallows with ⟨v, hv⟩ | ⟨hdivides, ⟨l, rfl⟩, rfl⟩
        · exact ⟨_, .value (.binary ho hx hy hv) hleftmost⟩
        · exact ⟨_, .failure (FailsWith.firstFails hx hy (.zero hdivides hx hy))⟩
      · exact ⟨_, .failure (FailsWith.firstFails hx hy (.operand ha hx hy htype hallows hleftmost))⟩
    · exact ⟨_, .failure (FailsWith.firstFails hx hy (.types hx hy htype))⟩

/-- Nothing else has a value. -/
theorem isArithmetic_of_value? {l : Literal} (h : n.value? = .ok (some l)) : n.IsArithmetic := by
  fun_induction Node.value? n generalizing l with
  | case1 => exact .literal
  | case2 o left right place ihleft ihright =>
    obtain ⟨x, y, a, v, hx, hy, -, ha, -, -⟩ := value?_binary_ok h
    exact .binary (Operator.mem_arithmetic.mpr ⟨a, ha⟩) (ihleft hx) (ihright hy)
  | case3 => cases h

end Folding

end Node

end Offside
