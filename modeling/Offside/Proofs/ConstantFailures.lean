import Offside.Proofs.ConstantValues

/-!
# Where a constant expression that fails is found

Folding goes into an expression from the left and looks at a right operand only behind a left one that has a
value. What an operation of literals that fails stands in decides by itself whether the failure is found; where it
is not, the expression is taken or refused whatever stands there.
-/

namespace Offside

set_option autoImplicit false

/-- One operation around a place in an expression. -/
inductive Surround where
  | under (operator : Operator) (location : Location)
  | leftOf (operator : Operator) (right : Node) (location : Location)
  | rightOf (operator : Operator) (left : Node) (location : Location)

namespace Surround

def node : Surround → Node → Node
  | under o place, n => .unary o n place
  | leftOf o right place, n => .binary o n right place
  | rightOf o left place, n => .binary o left n place

/-- Folding goes through the operation to the place. -/
def Passes : Surround → Prop
  | under _ _ => False
  | leftOf _ _ _ => True
  | rightOf _ left _ => ∃ v, left.Evaluates v

/-- The expression that has `n` inside of all the operations, the outermost first. -/
def nodeAll (around : List Surround) (n : Node) : Node := around.foldr node n

end Surround

namespace Node

variable {n m left right : Node} {o : Operator} {place : Location} {d : Diagnostic}

/-- An expression with a value is constant, and it has no other value. -/
theorem evaluates_of_value? {l : Literal} (h : n.value? = .ok (some l)) : n.Evaluates l.value := by
  obtain ⟨result, hresult⟩ := (isArithmetic_of_value? h).exists_reference
  have hsame := h.symm.trans hresult.value?
  cases hresult with
  | failure => cases hsame
  | value hvalue =>
    cases hsame
    exact hvalue

theorem not_evaluates_var (x : Variable) (v : Value) : ¬ (var x).Evaluates v := nofun

/-- A constant expression that comes to no value has a first node that fails. -/
theorem IsArithmetic.exists_firstFails (h : n.IsArithmetic) (hfails : ∀ v, ¬ n.Evaluates v) :
    ∃ d, n.FirstFails d := by
  obtain ⟨result, hresult⟩ := h.exists_reference
  cases hresult with
  | value hvalue => exact absurd hvalue (hfails _)
  | failure hd => exact ⟨_, hd⟩

/-- An operation whose left operand has no value comes to the same as that operand. -/
theorem value?_of_left {result : Except Diagnostic (Option Literal)} (hno : ∀ l, result ≠ .ok (some l))
    (h : left.value? = result) : (binary o left right place).value? = result := by
  rw [value?, h]
  rcases result with d | _ | l
  · rfl
  · rfl
  · exact absurd rfl (hno l)

theorem value?_of_right {l : Literal} {result : Except Diagnostic (Option Literal)}
    (hl : left.value? = .ok (some l)) (hno : ∀ l, result ≠ .ok (some l)) (h : right.value? = result) :
    (binary o left right place).value? = result := by
  rw [value?, hl, h]
  rcases result with d | _ | l
  · rfl
  · rfl
  · exact absurd rfl (hno l)

/-- A failure that folding comes to goes all the way out. -/
theorem value?_nodeAll {around : List Surround} (hpasses : ∀ s ∈ around, s.Passes)
    (h : m.value? = .error d) : (Surround.nodeAll around m).value? = .error d := by
  induction around with
  | nil => exact h
  | cons s around ih =>
    obtain ⟨hs, haround⟩ := List.forall_mem_cons.mp hpasses
    have hinner := ih haround
    cases s with
    | under => exact hs.elim
    | leftOf => exact value?_of_left nofun hinner
    | rightOf =>
      obtain ⟨v, hv⟩ := hs
      obtain ⟨_, -, hvalue⟩ := hv.value?
      exact value?_of_right hvalue nofun hinner

/-- Where folding does not come to, it does not matter what stands there. -/
theorem value?_nodeAll_of_not_passes {around : List Surround} (h : ¬ ∀ s ∈ around, s.Passes) :
    ∃ result, (∀ l, result ≠ .ok (some l)) ∧ ∀ n, (Surround.nodeAll around n).value? = result := by
  induction around with
  | nil => exact absurd (List.forall_mem_nil _) h
  | cons s around ih =>
    cases s with
    | under => exact ⟨.ok none, nofun, fun _ => rfl⟩
    | leftOf =>
      have haround : ¬ ∀ s ∈ around, s.Passes := fun hall => h (List.forall_mem_cons.mpr ⟨trivial, hall⟩)
      obtain ⟨result, hno, hsame⟩ := ih haround
      exact ⟨result, hno, fun n => value?_of_left hno (hsame n)⟩
    | rightOf o left place =>
      rcases hleft : left.value? with d | _ | l
      · exact ⟨.error d, nofun, fun _ => value?_of_left nofun hleft⟩
      · exact ⟨.ok none, nofun, fun _ => value?_of_left nofun hleft⟩
      · have haround : ¬ ∀ s ∈ around, s.Passes := fun hall =>
          h (List.forall_mem_cons.mpr ⟨⟨_, evaluates_of_value? hleft⟩, hall⟩)
        obtain ⟨result, hno, hsame⟩ := ih haround
        exact ⟨result, hno, fun n => value?_of_right hleft hno (hsame n)⟩

/--
A constant expression that comes to no value is refused inside of other operations, for its own first failure, if
folding comes to it: never under an operator with one operand, and on the right of another one only if the left
operand has a value. Anywhere else it makes no difference what stands in its place: the whole is always refused, for
another failure, or always left as it is.
-/
theorem fold_surrounded {m : Node} (hconstant : m.IsArithmetic) (hfails : ∀ v, ¬ m.Evaluates v)
    (around : List Surround) :
    ((∀ s ∈ around, s.Passes) →
      ∃ d, m.FirstFails d ∧ (Surround.nodeAll around m).fold = .error d) ∧
    ((¬ ∀ s ∈ around, s.Passes) →
      (∃ d, ∀ n, (Surround.nodeAll around n).fold = .error d) ∨
      ∀ n, (Surround.nodeAll around n).fold = .ok (Surround.nodeAll around n)) := by
  constructor
  · intro hpasses
    obtain ⟨d, hd⟩ := hconstant.exists_firstFails hfails
    refine ⟨d, hd, ?_⟩
    rw [fold, value?_nodeAll hpasses hd.value?]
    rfl
  · intro hpasses
    obtain ⟨result, hno, hsame⟩ := value?_nodeAll_of_not_passes hpasses
    rcases result with d | _ | l
    · refine .inl ⟨d, fun n => ?_⟩
      rw [fold, hsame n]
      rfl
    · refine .inr fun n => ?_
      rw [fold, hsame n]
      rfl
    · exact absurd rfl (hno l)

/-- The quotient `1 / 0`. -/
def zeroQuotient : Node :=
  .binary .div (.literal ⟨.int 1, ⟨"", 1, 6⟩⟩) (.literal ⟨.int 0, ⟨"", 1, 10⟩⟩) ⟨"", 1, 8⟩

theorem zeroQuotient_isArithmetic : zeroQuotient.IsArithmetic := .binary (by decide) .literal .literal

theorem not_evaluates_zeroQuotient (v : Value) : ¬ zeroQuotient.Evaluates v := by
  intro h
  obtain ⟨_, -, hvalue⟩ := h.value?
  cases hvalue

/-- In `2 * (1 / 0) + x` the quotient is found; in `x + n` nothing is. -/
theorem fold_surrounded_product :
    let x : Node := .var ⟨"x", .int, false, ⟨"", 1, 15⟩⟩
    let two : Node := .literal ⟨.int 2, ⟨"", 1, 1⟩⟩
    let around : List Surround := [.leftOf .add x ⟨"", 1, 13⟩, .rightOf .mul two ⟨"", 1, 3⟩]
    zeroQuotient.IsArithmetic ∧ (∀ v, ¬ zeroQuotient.Evaluates v) ∧ (∀ s ∈ around, s.Passes) ∧
      (∃ d, zeroQuotient.FirstFails d ∧
        (binary .add (binary .mul two zeroQuotient ⟨"", 1, 3⟩) x ⟨"", 1, 13⟩).fold = .error d) ∧
      (¬ ∀ s ∈ [Surround.rightOf .add x ⟨"", 1, 13⟩], s.Passes) ∧
      ∀ n, (binary .add x n ⟨"", 1, 13⟩).fold = .ok (binary .add x n ⟨"", 1, 13⟩) := by
  intro x two around
  have hpasses : ∀ s ∈ around, s.Passes :=
    List.forall_mem_cons.mpr ⟨trivial, List.forall_mem_singleton.mpr ⟨_, .literal⟩⟩
  have hstops : ¬ ∀ s ∈ [Surround.rightOf .add x ⟨"", 1, 13⟩], s.Passes := by
    intro hall
    obtain ⟨v, hx⟩ := List.forall_mem_singleton.mp hall
    exact not_evaluates_var _ v hx
  have hfound := (fold_surrounded zeroQuotient_isArithmetic not_evaluates_zeroQuotient around).1 hpasses
  refine ⟨zeroQuotient_isArithmetic, not_evaluates_zeroQuotient, hpasses, hfound, hstops, ?_⟩
  rcases (fold_surrounded zeroQuotient_isArithmetic not_evaluates_zeroQuotient _).2 hstops with ⟨d, hd⟩ | hsame
  · cases hd x
  · exact hsame

/-- `1 / 0 + x` is refused, but neither `x + 1 / 0` nor `-(1 / 0)` is. -/
theorem fold_misses_failure :
    let x : Node := .var ⟨"x", .int, false, ⟨"", 1, 15⟩⟩
    let ahead : Node := .binary .add zeroQuotient x ⟨"", 1, 13⟩
    let behind : Node := .binary .add x zeroQuotient ⟨"", 1, 13⟩
    let negative : Node := .unary .unaryMinus zeroQuotient ⟨"", 1, 4⟩
    zeroQuotient.IsArithmetic ∧ zeroQuotient.fold = .error ⟨.divisionByZero, ⟨"", 1, 8⟩⟩ ∧
      ahead.fold = .error ⟨.divisionByZero, ⟨"", 1, 8⟩⟩ ∧
      behind.fold = .ok behind ∧ negative.fold = .ok negative :=
  ⟨zeroQuotient_isArithmetic, rfl, rfl, rfl, rfl⟩

end Node

end Offside
