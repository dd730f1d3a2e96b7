import Offside.Expression
import Offside.Proofs.Execution

/-!
# What a step of an expression does

For each action on the stacks of an expression: when it succeeds, and what the stacks are then.
-/

namespace Offside.Expression

set_option autoImplicit false

open Execution

variable {symbols : SymbolTable} {t : Token} {e e' : Expression}

theorem fail_apply {α : Type} (fault : Fault) (e : Expression) :
    (fail fault : Build α) e = .error ⟨fault, e.stream.current.location⟩ e := rfl

theorem fail_bind {α β : Type} (fault : Fault) (f : α → Build β) (e : Expression) :
    ((fail fault : Build α) >>= f) e = .error ⟨fault, e.stream.current.location⟩ e := rfl

theorem reduce_unary {top : PendingOperator} {operand : Node} {rest : List Node}
    (ht : top.operator.isUnary) (he : e.operands = operand :: rest) :
    reduce top e = .ok () { e with operands := .unary top.operator operand top.location :: rest } := by
  simp only [reduce, get_bind, ht, he, set_apply]

theorem reduce_binary {top : PendingOperator} {left right : Node} {rest : List Node}
    (ht : top.operator.isUnary = false) (he : e.operands = right :: left :: rest) :
    reduce top e = .ok () e' ↔ checkTarget top left = .ok () ∧
      e' = { e with operands := .binary top.operator left right top.location :: rest } := by
  simp only [reduce, get_bind, ht, he]
  cases checkTarget top left with
  | ok => simp [set_apply, @eq_comm _ e']
  | error d => simp [bind_apply, set_apply, throw_apply]

/-- An operator that takes its operands leaves one node in their place. -/
theorem reduce_eq_ok {top : PendingOperator} (h : reduce top e = .ok () e') :
    (top.operator.isUnary ∧ ∃ operand rest, e.operands = operand :: rest ∧
      e' = { e with operands := .unary top.operator operand top.location :: rest }) ∨
    (top.operator.isUnary = false ∧ ∃ right left rest, e.operands = right :: left :: rest ∧
      e' = { e with operands := .binary top.operator left right top.location :: rest }) := by
  cases hu : top.operator.isUnary with
  | true =>
    cases ho : e.operands with
    | nil => simp [reduce, get_bind, hu, ho, throw_apply] at h
    | cons operand rest =>
      rw [reduce_unary hu ho] at h
      cases h
      exact .inl ⟨rfl, operand, rest, rfl, rfl⟩
  | false =>
    rcases ho : e.operands with _ | ⟨right, _ | ⟨left, rest⟩⟩
    · simp [reduce, get_bind, hu, ho, throw_apply] at h
    · simp [reduce, get_bind, hu, ho, throw_apply] at h
    · exact .inr ⟨rfl, right, left, rest, rfl, ((reduce_binary hu ho).mp h).2⟩

/-- Two operands become one and one stays one. -/
theorem length_reduce {top : PendingOperator} (h : reduce top e = .ok () e') :
    e'.operators = e.operators ∧ e'.stream = e.stream ∧
      e.operands.length = e'.operands.length + if top.operator.isUnary then 0 else 1 := by
  obtain ⟨hu, operand, rest, ho, rfl⟩ | ⟨hu, right, left, rest, ho, rfl⟩ := reduce_eq_ok h
  · simp [hu, ho]
  · simp [hu, ho]

theorem reduceWhile_nil (ready : Operator → Bool) (e : Expression) :
    reduceWhile ready [] e = .ok () e := rfl

theorem reduceWhile_of_ready {ready : Operator → Bool} {top : PendingOperator}
    {below : List PendingOperator} (h : ready top.operator) :
    reduceWhile ready (top :: below) e = .ok () e' ↔
      ∃ e₁, reduce top { e with operators := below } = .ok () e₁ ∧
        reduceWhile ready below e₁ = .ok () e' := by
  rw [reduceWhile, if_pos h]
  simp [bind_unit_eq_ok, modify_apply]

theorem reduceWhile_of_not_ready {ready : Operator → Bool} {top : PendingOperator}
    {below : List PendingOperator} (h : ready top.operator = false) :
    reduceWhile ready (top :: below) e = .ok () e := by
  rw [reduceWhile, if_neg (by simp [h])]
  rfl

/-- What every reduction does, and what two of them do one after the other, all reductions do. -/
theorem reduceWhile_relates {R : Expression → Expression → Prop} (hrefl : ∀ e, R e e)
    (htrans : ∀ {e₁ e₂ e₃}, R e₁ e₂ → R e₂ e₃ → R e₁ e₃)
    (hreduce : ∀ {top below e₁ e₂}, reduce top { e₁ with operators := below } = .ok () e₂ → R e₁ e₂)
    {ready : Operator → Bool} {stack : List PendingOperator} (h : reduceWhile ready stack e = .ok () e') :
    R e e' := by
  induction stack generalizing e with
  | nil =>
    cases h
    exact hrefl _
  | cons top below ih =>
    cases hready : ready top.operator with
    | false =>
      rw [reduceWhile_of_not_ready hready] at h
      cases h
      exact hrefl _
    | true =>
      obtain ⟨e₁, htop, hbelow⟩ := (reduceWhile_of_ready hready).mp h
      exact htrans (hreduce htop) (ih hbelow)

theorem openParenthesis_eq_ok :
    openParenthesis t e = .ok () e' ↔ e.wantsOperand ∧
      e' = { e with
        stream := e.stream.advance
        operators := ⟨.openParenthesis, t.location⟩ :: e.operators
        afterVariable := false
        parentheses := e.parentheses + 1 } := by
  unfold openParenthesis
  cases hw : e.wantsOperand
  · simp [get_bind, hw, fail_bind]
  · simp only [get_bind, hw, Bool.not_true, Bool.false_eq_true, if_false, advance, modify_bind]
    simp [modify_apply, @eq_comm _ e']

theorem closeParenthesis_eq_ok :
    closeParenthesis e = .ok () e' ↔ e.wantsOperand = false ∧
      ∃ e₁, reduceWhile (· ≠ .openParenthesis) e.operators
          { e with stream := e.stream.advance, parentheses := e.parentheses - 1 } = .ok () e₁ ∧
        e' = { e₁ with operators := e₁.operators.tail, afterVariable := false } := by
  unfold closeParenthesis
  cases hw : e.wantsOperand
  · simp [get_bind, hw, advance, modify_bind, modify_apply, bind_unit_eq_ok, @eq_comm _ e']
  · simp [get_bind, hw, fail_bind]

theorem literal_eq_ok :
    literal t e = .ok () e' ↔ e.wantsOperand ∧ ∃ l, Literal.ofToken t = .ok l ∧
      e' = { e with
        stream := e.stream.advance
        operands := .literal l :: e.operands
        wantsOperand := false
        afterVariable := false } := by
  unfold literal
  cases hw : e.wantsOperand
  · simp [get_bind, hw, fail_bind]
  · cases hl : Literal.ofToken t <;>
      simp [get_bind, hw, throw_apply, advance, modify_bind, modify_apply, pushOperand,
        @eq_comm _ e']

theorem identifier_eq_ok :
    identifier symbols t e = .ok () e' ↔ e.wantsOperand ∧
      ((∃ v, symbols.lookup? t.text = some (.var v) ∧
        e' = { e with
          stream := e.stream.advance
          operands := .var v :: e.operands
          wantsOperand := false
          afterVariable := true }) ∨
      ∃ f, symbols.lookup? t.text = some (.function f) ∧
        e' = { e with
          stream := e.stream.advance
          operands := .reference f :: e.operands
          wantsOperand := false
          afterVariable := false }) := by
  unfold identifier
  cases hw : e.wantsOperand
  · simp [get_bind, hw, fail_bind]
  · cases hl : symbols.lookup? t.text with
    | none => simp [get_bind, hw, fail_apply]
    | some i =>
      simp only [get_bind, hw, Bool.not_true, Bool.false_eq_true, if_false]
      cases i with
      | var | function =>
        simp only [advance, modify_bind, modify_apply, pushOperand]
        simp [@eq_comm _ e']
      | constant => simp [fail_apply]

theorem pushOperator_eq_ok {o : Operator} {l : Location} :
    pushOperator o l e = .ok () e' ↔
      ∃ e₁, reduceWhile (bindsBefore o) e.operators e = .ok () e₁ ∧
        e' = { e₁ with operators := ⟨o, l⟩ :: e₁.operators } := by
  unfold pushOperator
  simp [bind_unit_eq_ok, get_bind, modify_apply, @eq_comm _ e']

theorem operator_eq_ok :
    operator symbols t e = .ok () e' ↔
      ∃ symbolOperator o e₁, Operator.ofSymbol? t.text = some symbolOperator ∧
        resolve t symbolOperator e.wantsOperand e.afterVariable
          (isVariable symbols e.stream.advance.current) = .ok o ∧
        reduceWhile (bindsBefore o) e.operators { e with stream := e.stream.advance } =
          .ok () e₁ ∧
        e' = { e₁ with
          operators := ⟨o, t.location⟩ :: e₁.operators
          wantsOperand := o ≠ .postIncrement ∧ o ≠ .postDecrement
          afterVariable := false } := by
  unfold operator
  cases hs : Operator.ofSymbol? t.text with
  | none => simp [fail_apply]
  | some symbolOperator =>
    simp only [advance, modify_bind, get_bind]
    cases hr : resolve t symbolOperator e.wantsOperand e.afterVariable
        (isVariable symbols e.stream.advance.current) with
    | error d => simp [hr, throw_apply]
    | ok o =>
      simp only [bind_unit_eq_ok, pushOperator_eq_ok, modify_apply]
      constructor
      · rintro ⟨_, ⟨e₁, h₁, rfl⟩, h₂⟩
        cases h₂
        exact ⟨_, o, e₁, rfl, hr, h₁, rfl⟩
      · rintro ⟨_, o', e₁, ⟨⟩, hr', h₁, rfl⟩
        cases hr.symm.trans hr'
        exact ⟨_, ⟨e₁, h₁, rfl⟩, rfl⟩

theorem finish_eq_ok {n : Node} :
    finish e = .ok n e' ↔ e.parentheses = 0 ∧
      ∃ e₁, reduceWhile (fun _ => true) e.operators e = .ok () e₁ ∧ e₁.operands = [n] ∧
        e' = { e₁ with operands := [] } := by
  unfold finish
  by_cases hp : e.parentheses > 0
  · simp only [get_bind, if_pos hp, fail_bind]
    exact ⟨nofun, fun h => absurd h.1 (Nat.ne_of_gt hp)⟩
  · have h0 : e.parentheses = 0 := Nat.eq_zero_of_not_pos hp
    simp only [get_bind, if_neg hp, bind_unit_eq_ok]
    rw [and_iff_right h0]
    refine exists_congr fun e₁ => and_congr_right fun _ => ?_
    match e₁.operands with
    | [] => simp [fail_apply]
    | [m] => simp [set_bind, pure_apply, @eq_comm _ e']
    | m :: k :: rest => simp [set_bind, fail_apply]

end Offside.Expression
