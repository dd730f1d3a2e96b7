import Mathlib.Logic.Relation
import Offside.Proofs.ExpressionGrammar
import Offside.Proofs.ExpressionPlaces
import Offside.Proofs.ExpressionTokens

/-!
# The stacks of an expression balance

Whenever an expression is about to take a token, the operators that wait have their left operands on the other
stack, one for each of them that takes two, and above these stands the operand that was read last, unless one is
wanted. So nothing that waits is short of an operand before the end of the expression.
-/

namespace Offside

set_option autoImplicit false

namespace Expression

open Execution

variable {symbols : SymbolTable} {t : Token} {e e' : Expression} {d : Diagnostic}

/-- The operands that are there are those that the operators wait with, and the parentheses that are counted those
that are on the stack. -/
structure Balanced (e : Expression) : Prop where
  operands : e.operands.length =
    e.operators.countP (·.operator.takesTwo) + if e.wantsOperand then 0 else 1
  parentheses : e.operators.countP (·.operator = .openParenthesis) = e.parentheses
  settled : e.wantsOperand → ∀ top ∈ e.operators, ¬ top.operator.standsBehind

/-! ## Operators take their operands -/

theorem checkTarget_fault {top : PendingOperator} {left : Node} (h : checkTarget top left = .error d) :
    d.fault ≠ .expectedOperand := by
  unfold checkTarget at h
  split at h
  · cases h
  · split at h
    · split at h
      · cases h
        exact nofun
      · cases h
    · cases h
      exact nofun

/-- With its operands on the stack an operator can only be refused what it assigns to. -/
theorem reduce_error {top : PendingOperator} (hfound : (if top.operator.isUnary then 1 else 2) ≤ e.operands.length)
    (h : reduce top e = .error d e') : d.fault ≠ .expectedOperand ∧ e'.operators = e.operators := by
  simp only [reduce, get_bind] at h
  cases hu : top.operator.isUnary with
  | true =>
    cases ho : e.operands with
    | nil => simp [hu, ho] at hfound
    | cons operand rest =>
      simp only [hu, ho] at h
      cases h
  | false =>
    rcases ho : e.operands with _ | ⟨right, _ | ⟨left, rest⟩⟩
    · simp [hu, ho] at hfound
    · simp [hu, ho] at hfound
    · simp only [hu, ho] at h
      cases hc : checkTarget top left with
      | ok =>
        rw [hc] at h
        cases h
      | error d' =>
        rw [hc] at h
        cases h
        exact ⟨checkTarget_fault hc, rfl⟩

theorem reduceWhile_cons {ready : Operator → Bool} {top : PendingOperator} {below : List PendingOperator}
    (h : ready top.operator) (e : Expression) :
    reduceWhile ready (top :: below) e =
      match reduce top { e with operators := below } with
      | .ok () e₁ => reduceWhile ready below e₁
      | .error d e₁ => .error d e₁ := by
  rw [reduceWhile, if_pos h, modify_bind, bind_apply]
  cases reduce top { e with operators := below } <;> rfl

/-- Where no operand is wanted, all that are taken off the stack find theirs, as long as no parenthesis is among
them; and none but these are taken off, also where one of them cannot assign. -/
theorem reduceWhile_found {ready : Operator → Bool} {stack : List PendingOperator}
    (hspares : ∀ top ∈ stack, ready top.operator → top.operator ≠ .openParenthesis) (hstack : e.operators = stack)
    (hfound : e.operands.length = stack.countP (·.operator.takesTwo) + 1) :
    match reduceWhile ready stack e with
    | .ok () e' => e'.operators = stack.dropWhile (ready ·.operator) ∧
        e'.operands.length = e'.operators.countP (·.operator.takesTwo) + 1
    | .error d e' => d.fault ≠ .expectedOperand ∧ stack.dropWhile (ready ·.operator) <:+ e'.operators := by
  induction stack generalizing e with
  | nil =>
    rw [reduceWhile_nil]
    exact ⟨hstack, by rw [hstack, hfound]⟩
  | cons top below ih =>
    cases hready : ready top.operator with
    | false =>
      rw [reduceWhile_of_not_ready hready,
        List.dropWhile_cons_of_neg (p := fun o : PendingOperator => ready o.operator) (by simp [hready])]
      exact ⟨hstack, by rw [hstack, hfound]⟩
    | true =>
      have htop : top.operator.takesTwo = !top.operator.isUnary := by
        simp [Operator.takesTwo, hspares top List.mem_cons_self hready]
      rw [List.countP_cons, htop] at hfound
      rw [reduceWhile_cons hready, List.dropWhile_cons_of_pos (p := fun o : PendingOperator => ready o.operator) hready]
      cases hreduce : reduce top { e with operators := below } with
      | error d e₁ =>
        have henough : (if top.operator.isUnary then 1 else 2) ≤ e.operands.length := by
          cases hu : top.operator.isUnary <;> simp [hu] at hfound ⊢ <;> omega
        obtain ⟨hfault, hoperators⟩ := @reduce_error { e with operators := below } e₁ d top henough hreduce
        refine ⟨hfault, ?_⟩
        rw [hoperators]
        exact List.dropWhile_suffix _
      | ok u e₁ =>
        obtain ⟨hoperators, -, hlength⟩ := length_reduce hreduce
        refine ih (fun o ho => hspares o (List.mem_cons_of_mem _ ho)) hoperators ?_
        dsimp only at hlength
        cases hu : top.operator.isUnary <;> simp [hu] at hfound hlength <;> omega

/-- What is taken off the stack at a place where no operand is wanted. -/
theorem Balanced.found (h : e.Balanced) (hw : e.wantsOperand = false) (ready : Operator → Bool)
    (hspares : ∀ top ∈ e.operators, ready top.operator → top.operator ≠ .openParenthesis) (s : TokenStream) (n : Nat) :
    match reduceWhile ready e.operators { e with stream := s, parentheses := n } with
    | .ok () e' => e'.operators = e.operators.dropWhile (ready ·.operator) ∧
        e'.operands.length = e'.operators.countP (·.operator.takesTwo) + 1
    | .error d e' => d.fault ≠ .expectedOperand ∧ e.operators.dropWhile (ready ·.operator) <:+ e'.operators := by
  refine reduceWhile_found hspares rfl ?_
  have hoperands := h.operands
  rw [hw] at hoperands
  exact hoperands

/-! ## Parentheses -/

theorem closeParenthesis_wants (hw : e.wantsOperand) :
    closeParenthesis e = .error ⟨.expectedOperand, e.stream.current.location⟩ e := by
  unfold closeParenthesis
  rw [get_bind, hw]
  rfl

theorem closeParenthesis_apply (hw : e.wantsOperand = false) :
    closeParenthesis e =
      match reduceWhile (· ≠ .openParenthesis) e.operators
        { e with stream := e.stream.advance, parentheses := e.parentheses - 1 } with
      | .ok () e₁ => .ok () { e₁ with operators := e₁.operators.tail, afterVariable := false }
      | .error d e₁ => .error d e₁ := by
  unfold closeParenthesis
  rw [get_bind, if_neg (by simp [hw])]
  show (reduceWhile (· ≠ .openParenthesis) e.operators >>= fun _ =>
    modify fun e₁ => { e₁ with operators := e₁.operators.tail, afterVariable := false })
      { e with stream := e.stream.advance, parentheses := e.parentheses - 1 } = _
  rw [bind_apply]
  cases reduceWhile (· ≠ .openParenthesis) e.operators
    { e with stream := e.stream.advance, parentheses := e.parentheses - 1 } <;> rfl

theorem step_closing (hclosing : e.stream.current.isDelimiter ")") (hopen : e.parentheses ≠ 0) :
    step symbols e = (do closeParenthesis; return true : Build Bool) e := by
  obtain ⟨hk, htext⟩ : e.stream.current.kind = .delimiter ∧ e.stream.current.text = ")" := by
    simpa [Token.isDelimiter, Token.is] using hclosing
  unfold step
  rw [get_bind]
  simp [hk, htext, hopen]

theorem Balanced.exists_openParenthesis (h : e.Balanced) (hopen : e.parentheses ≠ 0) :
    ∃ above place below, e.operators = above ++ ⟨.openParenthesis, place⟩ :: below ∧
      ∀ top ∈ above, top.operator ≠ .openParenthesis := by
  have hsome : ∃ top ∈ e.operators, top.operator = .openParenthesis := by
    rw [← h.parentheses, ← Nat.pos_iff_ne_zero, List.countP_pos_iff] at hopen
    simpa using hopen
  obtain ⟨⟨o, place⟩, hfind⟩ : ∃ first, e.operators.find? (·.operator = .openParenthesis) = some first := by
    rw [← Option.isSome_iff_exists, List.find?_isSome]
    simpa using hsome
  obtain ⟨hfirst, above, below, hsplit, habove⟩ := List.find?_eq_some_iff_append.mp hfind
  obtain rfl : o = .openParenthesis := by simpa using hfirst
  exact ⟨above, place, below, hsplit, by simpa using habove⟩

/-- A parenthesis that is closed is on the stack, below what is taken off first. -/
theorem Balanced.closes (h : e.Balanced) (hw : e.wantsOperand = false) (hopen : e.parentheses ≠ 0) :
    ∃ above place below, e.operators = above ++ ⟨.openParenthesis, place⟩ :: below ∧
      (∀ top ∈ above, top.operator ≠ .openParenthesis) ∧
      match closeParenthesis e with
      | .ok () e' => e'.operators = below
      | .error d e' => d.fault ≠ .expectedOperand ∧ ⟨.openParenthesis, place⟩ :: below <:+ e'.operators := by
  obtain ⟨above, place, below, hsplit, habove⟩ := h.exists_openParenthesis hopen
  have hdrop : e.operators.dropWhile (fun top => decide (top.operator ≠ .openParenthesis)) =
      ⟨.openParenthesis, place⟩ :: below := by
    rw [hsplit, List.dropWhile_append_of_pos (by simpa using habove), List.dropWhile_cons_of_neg (by simp)]
  refine ⟨above, place, below, hsplit, habove, ?_⟩
  have hfound := h.found hw (· ≠ .openParenthesis) (by simp) e.stream.advance (e.parentheses - 1)
  rw [hdrop] at hfound
  rw [closeParenthesis_apply hw]
  cases hreduces : reduceWhile (· ≠ .openParenthesis) e.operators
      { e with stream := e.stream.advance, parentheses := e.parentheses - 1 } with
  | ok u e₁ =>
    rw [hreduces] at hfound
    dsimp only
    rw [hfound.1, List.tail_cons]
  | error d e₁ =>
    rw [hreduces] at hfound
    exact hfound

/-! ## The end of the expression -/

theorem Balanced.not_openParenthesis (h : e.Balanced) (hclosed : e.parentheses = 0) :
    ∀ top ∈ e.operators, top.operator ≠ .openParenthesis := by
  have hnone := h.parentheses
  rw [hclosed, List.countP_eq_zero] at hnone
  simpa using hnone

/-- No more than one operand is left when all operators have theirs. -/
theorem Balanced.length_le_one (h : e.Balanced) (hclosed : e.parentheses = 0)
    (hreduces : reduceWhile (fun _ => true) e.operators e = .ok () e') : e'.operands.length ≤ 1 := by
  have hlength := Draft.length_reduceWhile hreduces
  rw [h.operands, Draft.countP_not_isUnary (h.not_openParenthesis hclosed)] at hlength
  split at hlength <;> omega

/-- Where no operand is wanted, the end of the expression misses none. -/
theorem Balanced.finish_error (h : e.Balanced) (hw : e.wantsOperand = false) (hfinish : finish e = .error d e') :
    d.fault ≠ .expectedOperand := by
  unfold finish at hfinish
  by_cases hopen : e.parentheses > 0
  · simp only [get_bind, if_pos hopen, fail_bind] at hfinish
    cases hfinish
    exact nofun
  · have hclosed := h.not_openParenthesis (Nat.eq_zero_of_not_pos hopen)
    have hfound := h.found hw (fun _ => true) (fun top htop _ => hclosed top htop) e.stream e.parentheses
    simp only [get_bind, if_neg hopen, bind_eq_error] at hfinish
    obtain hreduces | ⟨_, e₁, -, hrest⟩ := hfinish
    · rw [hreduces] at hfound
      exact hfound.1
    · match ho : e₁.operands with
      | [] =>
        rw [ho] at hrest
        cases hrest
        exact nofun
      | [n] =>
        rw [ho] at hrest
        cases hrest
      | n :: m :: rest =>
        rw [ho] at hrest
        cases hrest
        exact nofun

/-! ## Other faults -/

/-- Where the action fails, it is not for the want of an operand. -/
abbrev FailsOtherwise {α : Type} (x : Build α) (Q : α → Prop) : Prop :=
  Keeps (fun _ => True) (·.fault ≠ .expectedOperand) x Q

theorem FailsOtherwise.fault {α : Type} {x : Build α} {Q : α → Prop} (h : FailsOtherwise x Q)
    (hx : x e = .error d e') : d.fault ≠ .expectedOperand := h.error trivial hx

theorem failsOtherwise_fail {α : Type} {fault : Fault} {Q : α → Prop} (h : fault ≠ .expectedOperand) :
    FailsOtherwise (fail fault : Build α) Q := keeps_bind keeps_get fun _ _ => keeps_throw h

theorem failsOtherwise_modify (f : Expression → Expression) : FailsOtherwise (modify f : Build Unit) fun _ => True :=
  keeps_modify fun _ _ => trivial

theorem fault_ofToken (h : Literal.ofToken t = .error d) : d.fault ≠ .expectedOperand := by
  unfold Literal.ofToken at h
  split at h
  · cases h
    exact nofun
  · split at h
    · cases h
    · cases h
      exact nofun

theorem failsOtherwise_literal (t : Token) : FailsOtherwise (literal t) fun _ => True := by
  refine keeps_bind keeps_get fun _ _ => keeps_unless (failsOtherwise_fail nofun) ?_
  refine keeps_bind (failsOtherwise_modify _) fun _ _ => ?_
  split
  · exact failsOtherwise_modify _
  · next hl => exact keeps_throw (fault_ofToken hl)

theorem failsOtherwise_identifier (symbols : SymbolTable) (t : Token) :
    FailsOtherwise (identifier symbols t) fun _ => True := by
  refine keeps_bind keeps_get fun _ _ => keeps_unless (failsOtherwise_fail nofun) ?_
  split
  · exact keeps_bind (failsOtherwise_modify _) fun _ _ => failsOtherwise_modify _
  · exact keeps_bind (failsOtherwise_modify _) fun _ _ => failsOtherwise_modify _
  · exact failsOtherwise_fail nofun
  · exact failsOtherwise_fail nofun

theorem failsOtherwise_openParenthesis (t : Token) : FailsOtherwise (openParenthesis t) fun _ => True := by
  refine keeps_bind keeps_get fun _ _ => keeps_unless (failsOtherwise_fail nofun) ?_
  exact keeps_bind (failsOtherwise_modify _) fun _ _ => failsOtherwise_modify _

theorem fault_resolve {o : Operator} {wants after next : Bool} (h : resolve t o wants after next = .error d) :
    d.fault ≠ .expectedOperand := by
  unfold resolve at h
  repeat' split at h
  all_goals first
    | cases h; exact nofun
    | cases h

/-- An operator is refused because of its token, or because one that waits cannot take its operands. -/
theorem operator_error (h : operator symbols t e = .error d e') :
    d.fault ≠ .expectedOperand ∨
      ∃ c o, Operator.ofSymbol? t.text = some c ∧
        resolve t c e.wantsOperand e.afterVariable (isVariable symbols e.stream.advance.current) = .ok o ∧
        reduceWhile (bindsBefore o) e.operators { e with stream := e.stream.advance } = .error d e' := by
  unfold operator at h
  cases hc : Operator.ofSymbol? t.text with
  | none =>
    rw [hc] at h
    cases h
    exact .inl nofun
  | some c =>
    simp only [hc, advance, modify_bind, get_bind] at h
    cases hr : resolve t c e.wantsOperand e.afterVariable (isVariable symbols e.stream.advance.current) with
    | error d₁ =>
      simp only [hr] at h
      cases h
      exact .inl (fault_resolve hr)
    | ok o =>
      simp only [hr] at h
      simp only [pushOperator, bind_eq_error, get_bind, modify_apply] at h
      obtain (hreduces | ⟨_, _, -, hset⟩) | ⟨_, _, -, hset⟩ := h
      · exact .inr ⟨c, o, rfl, hr, hreduces⟩
      · cases hset
      · cases hset

/-! ## Iterations -/

/-- A step that takes a token leads from one iteration to the next. -/
def Continues (symbols : SymbolTable) (e e' : Expression) : Prop := step symbols e = .ok true e'

abbrev Iterates (symbols : SymbolTable) : Expression → Expression → Prop :=
  Relation.ReflTransGen (Continues symbols)

/-- The steps come to an iteration that the expression ends with, or to one that fails. -/
theorem steps_iterates {n : Nat} (hn : e.stream.tokens.length ≤ n) (hs : e.stream.EndsAhead) :
    ∃ e₁, Iterates symbols e e₁ ∧
      (step symbols e₁ = .ok false e₁ ∧ steps symbols n e = .ok () e₁ ∨
        ∃ d e₂, step symbols e₁ = .error d e₂ ∧ steps symbols n e = .error d e₂) := by
  induction n generalizing e with
  | zero => cases hn
  | succ n ih =>
    unfold steps
    rw [bind_apply]
    cases hstep : step symbols e with
    | error d e₂ => exact ⟨e, .refl, .inr ⟨d, e₂, hstep, rfl⟩⟩
    | ok b e₁ =>
      cases b with
      | false =>
        obtain ⟨rfl, -⟩ := step_ends hstep
        exact ⟨e₁, .refl, .inl ⟨hstep, rfl⟩⟩
      | true =>
        have hbeyond := (step_takes hstep).beyond
        have hlt := hbeyond.length_lt hs
        obtain ⟨e₂, hiterates, hends⟩ := ih (by omega) (hbeyond.endsAhead hs)
        exact ⟨e₂, .head hstep hiterates, hends⟩

/-- The tree is what the last iteration comes to. -/
theorem tree_iterates {s : TokenStream} (hs : s.EndsAhead) :
    ∃ e, Iterates symbols (.start s) e ∧
      (step symbols e = .ok false e ∧ tree symbols (.start s) = finish e ∨
        ∃ d e', step symbols e = .error d e' ∧ tree symbols (.start s) = .error d e') := by
  have htree : tree symbols (.start s) = (steps symbols s.tokens.length >>= fun _ => finish) (.start s) := rfl
  have hsteps := @steps_iterates symbols (.start s) s.tokens.length (Nat.le_refl _) hs
  rw [bind_apply] at htree
  rw [htree]
  obtain ⟨e, hiterates, ⟨hend, hsteps⟩ | ⟨d, e', herror, hsteps⟩⟩ := hsteps
  · rw [hsteps]
    exact ⟨e, hiterates, .inl ⟨hend, rfl⟩⟩
  · rw [hsteps]
    exact ⟨e, hiterates, .inr ⟨d, e', herror, rfl⟩⟩

end Expression

namespace Draft

open Expression

variable {symbols : SymbolTable} {d : Draft} {s : TokenStream} {e : Expression}

theorem countP_openParenthesis (ws : List Waiting) :
    (ws.map Waiting.pending).countP (·.operator = .openParenthesis) = parentheses ws := by
  rw [List.countP_map, parentheses]
  refine List.countP_congr fun w _ => ?_
  rw [Function.comp_apply, decide_eq_true_iff, decide_eq_true_iff, Waiting.operator_pending]
  rfl

/-- Nothing but the last phrase has `++` or `--` behind it. -/
theorem Sound.not_standsBehind {w : Waiting} (h : Sound symbols w) : ¬ w.operator.standsBehind := by
  intro hb
  have hle := h.precedence_le
  rw [Operator.precedence_standsBehind hb] at hle
  omega

theorem Invariant.balanced (h : Invariant symbols d) (s : TokenStream) : (d.onStacks s).Balanced := by
  obtain ⟨ws, last⟩ := d
  have hsound := h.chain.sound
  have hwaiting := (length_operandsOf hsound).symm
  have hopen := countP_openParenthesis ws
  cases last with
  | none =>
    refine ⟨?_, hopen, fun _ top htop => ?_⟩
    · simp [onStacks, lastOperands, lastOperators, hwaiting]
    · obtain ⟨w, hw, rfl⟩ := List.mem_map.mp htop
      rw [Waiting.operator_pending]
      exact (hsound w hw).not_standsBehind
  | some p =>
    cases p with
    | behind name v t o =>
      have ho : o.standsBehind := h.root _ rfl o rfl
      have htwo : o.takesTwo = false := by simp [Operator.takesTwo, isUnary_of_standsBehind ho]
      have hother : o ≠ .openParenthesis := by
        rintro rfl
        cases ho
      refine ⟨?_, ?_, fun hwants => absurd hwants Bool.false_ne_true⟩
      · simp [onStacks, lastOperands, lastOperators, hwaiting, htwo]
      · simpa [onStacks, lastOperators, hother] using hopen
    | operand | enclosed | before | between =>
      refine ⟨?_, hopen, fun hwants => absurd hwants Bool.false_ne_true⟩
      simp [onStacks, lastOperands, lastOperators, hwaiting]

/-- In every iteration there is a draft on the stacks. -/
theorem exists_onStacks (hp : ∀ t ∈ s.tokens, PlainOperator t) (h : Iterates symbols (.start s) e) :
    ∃ d s', e = d.onStacks s' ∧ Invariant symbols d ∧ d.AssignsVariables ∧ s'.tokens <:+ s.tokens := by
  induction h with
  | refl => exact ⟨start, s, rfl, invariant_start, ⟨List.forall_mem_nil _, nofun⟩, List.suffix_rfl⟩
  | tail _ hstep ih =>
    obtain ⟨d, s', rfl, hi, ha, hs'⟩ := ih
    have hstay : ¬ EndsBefore (parentheses d.waiting) s'.current := by
      intro hends
      unfold Continues at hstep
      rw [step_of_endsBefore hends] at hstep
      cases hstep
    have hplain := hp _ (hs'.mem s'.current_mem)
    obtain ⟨-, d', htake, ha', -, rfl⟩ := (step_onStacks hi ha hplain hstay).mp hstep
    exact ⟨d', s'.advance, rfl, htake.invariant hi, ha', s'.advance_suffix.trans hs'⟩

/-! ## Where an operand is missing -/

/-- Operators in front of their operands and behind variables leave alone all that waits; those between two operands
come where none is wanted. -/
theorem operator_error_onStacks {x : Diagnostic} {e' : Expression} (hi : Invariant symbols d)
    (hk : s.current.kind = .operator) (hp : PlainOperator s.current)
    (h : operator symbols s.current (d.onStacks s) = .error x e') : x.fault ≠ .expectedOperand := by
  rcases operator_error h with hother | ⟨c, o, hc, hr, hreduces⟩
  · exact hother
  have hnd := group_ne_delimiter hk hp (Operator.symbol_of_ofSymbol? hc)
  have hbalanced := hi.balanced s
  obtain ⟨ws, last⟩ := d
  have haw : afterVariable last → last.isNone = false := by
    cases last with
    | none => exact nofun
    | some => exact fun _ => rfl
  obtain ⟨-, -, ⟨hb, hafter⟩ | ⟨hb, hwants⟩ | ⟨hb, hwants⟩⟩ := (resolve_eq_ok hc hnd haw).mp hr
  · obtain ⟨name, v, rfl⟩ := afterVariable_iff.mp hafter
    have hprecedence := Operator.precedence_standsBehind hb
    have htight := @reduceWhile_tight symbols { onStacks ⟨ws, some (.operand name (.var v))⟩ s with
      stream := s.advance } ws o hi.chain (by omega) rfl
    cases htight.symm.trans hreduces
  · obtain rfl := Option.isNone_iff_eq_none.mp hwants
    have hprecedence := Operator.precedence_standsBefore hb
    have htight := @reduceWhile_tight symbols { onStacks ⟨ws, none⟩ s with stream := s.advance } ws o hi.chain
      (by omega) rfl
    cases htight.symm.trans hreduces
  · have hfound := hbalanced.found hwants (bindsBefore o) (fun top _ hready hopen => ?_)
      (onStacks ⟨ws, last⟩ s).stream.advance (onStacks ⟨ws, last⟩ s).parentheses
    · rw [hreduces] at hfound
      exact hfound.1
    · rw [hopen, bindsBefore_openParenthesis hb] at hready
      cases hready

theorem step_error_onStacks {x : Diagnostic} {e' : Expression} (hi : Invariant symbols d)
    (hp : PlainOperator s.current) (h : step symbols (d.onStacks s) = .error x e')
    (hx : x.fault = .expectedOperand) :
    (d.onStacks s).wantsOperand ∧ s.current.isDelimiter ")" ∧ e' = d.onStacks s := by
  rcases step_acts symbols (d.onStacks s) with ⟨-, hend⟩ | ⟨-, y, hacts, hstep⟩
  · rw [hend] at h
    cases h
  rw [hstep, then_true_error] at h
  cases hacts with
  | literal => exact absurd hx ((failsOtherwise_literal _).fault h)
  | identifier => exact absurd hx ((failsOtherwise_identifier _ _).fault h)
  | operator hk => exact absurd hx (operator_error_onStacks hi hk hp h)
  | opening => exact absurd hx ((failsOtherwise_openParenthesis _).fault h)
  | stuck =>
    cases h
    cases hx
  | closing hclosing hopen =>
    cases hw : (d.onStacks s).wantsOperand with
    | true =>
      rw [closeParenthesis_wants hw] at h
      cases h
      exact ⟨rfl, hclosing, rfl⟩
    | false =>
      obtain ⟨above, place, below, -, -, hcloses⟩ := (hi.balanced s).closes hw hopen
      rw [h] at hcloses
      exact absurd hx hcloses.1

end Draft

namespace Expression

open Execution

/-- In every iteration the stacks balance. So the parenthesis that is closed is there, a step misses an operand only
in front of a closing parenthesis, and before it takes any; and at the end of the expression an operand is missing
only if one is wanted, and none is left over. -/
theorem stacks_balance {source file : String} {tokens : List Token} {s : TokenStream}
    (ht : tokenize source file = .ok tokens) (hs : s.tokens <:+ tokens) (symbols : SymbolTable) :
    (∃ e, Iterates symbols (.start s) e ∧
      (step symbols e = .ok false e ∧ tree symbols (.start s) = finish e ∨
        ∃ d e', step symbols e = .error d e' ∧ tree symbols (.start s) = .error d e')) ∧
    ∀ e, Iterates symbols (.start s) e →
      e.Balanced ∧
      (e.stream.current.isDelimiter ")" → 0 < e.parentheses → e.wantsOperand = false →
        ∃ above place below, e.operators = above ++ ⟨.openParenthesis, place⟩ :: below ∧
          (∀ top ∈ above, top.operator ≠ .openParenthesis) ∧
          match step symbols e with
          | .ok _ e' => e'.operators = below
          | .error d e' => d.fault ≠ .expectedOperand ∧ ⟨.openParenthesis, place⟩ :: below <:+ e'.operators) ∧
      (∀ d e', step symbols e = .error d e' → d.fault = .expectedOperand →
        e.wantsOperand ∧ e.stream.current.isDelimiter ")" ∧ e' = e) ∧
      (step symbols e = .ok false e →
        (∀ d e', finish e = .error d e' → d.fault = .expectedOperand → e.wantsOperand) ∧
        (e.parentheses = 0 → ∀ e', reduceWhile (fun _ => true) e.operators e = .ok () e' →
          e'.operands.length ≤ 1)) := by
  have hlined := lined_tokenize ht
  have hplain : ∀ t ∈ s.tokens, PlainOperator t := fun t h => hlined.plainOperator t (hs.subset h)
  refine ⟨tree_iterates (hlined.endsAhead hs), fun e hiterates => ?_⟩
  obtain ⟨d, s', rfl, hi, -, hs'⟩ := Draft.exists_onStacks hplain hiterates
  have hbalanced := hi.balanced s'
  refine ⟨hbalanced, fun hclosing hopen hw => ?_, fun x e' hstep hx => ?_, fun _ => ⟨fun x e' hfinish hx => ?_, ?_⟩⟩
  · have hcloses := hbalanced.closes hw hopen.ne'
    rw [step_closing hclosing hopen.ne', bind_apply]
    cases hclose : closeParenthesis (d.onStacks s') <;> rw [hclose] at hcloses <;> exact hcloses
  · exact Draft.step_error_onStacks hi (hplain _ (hs'.mem s'.current_mem)) hstep hx
  · by_contra hw
    exact hbalanced.finish_error (Bool.eq_false_iff.mpr hw) hfinish hx
  · exact fun hclosed e' => hbalanced.length_le_one hclosed

/-- In front of the parenthesis that closes `(1 + !true)` three operators wait with the two literals. -/
theorem stacks_balance_closing :
    ∃ s, tokenize "(1 + !true)" "" = .ok s.tokens ∧
      ∃ e e', Iterates .empty (.start s) e ∧ step .empty e = .ok true e' ∧
        e.operators.map (·.operator) = [.logicalNegation, .add, .openParenthesis] ∧ e.operands.length = 2 ∧
        ∃ above place, e.operators = above ++ ⟨.openParenthesis, place⟩ :: e'.operators := by
  obtain ⟨s, hts, e, e', hiterates, hstep, hoperators, hclosing, hopen, hw⟩ :
      ∃ s, tokenize "(1 + !true)" "" = .ok s.tokens ∧
        ∃ e e', Iterates .empty (.start s) e ∧ step .empty e = .ok true e' ∧
          e.operators.map (·.operator) = [.logicalNegation, .add, .openParenthesis] ∧
          e.stream.current.isDelimiter ")" ∧ 0 < e.parentheses ∧ e.wantsOperand = false := by
    obtain ⟨ts, hts, rfl⟩ : ∃ ts, tokenize "(1 + !true)" "" = .ok ts ∧ ts =
        [.plain .delimiter "(" ⟨"", 1, 1⟩ 0, ⟨.literal, "1", ⟨"", 1, 2⟩, 0, some .int, none⟩,
          .plain .operator "+" ⟨"", 1, 4⟩ 0, .plain .operator "!" ⟨"", 1, 6⟩ 0,
          ⟨.literal, "true", ⟨"", 1, 7⟩, 0, some .boolean, none⟩, .plain .delimiter ")" ⟨"", 1, 11⟩ 0,
          .plain .endOfStatement "" ⟨"", 1, 12⟩ 0, .endAt ⟨"", 1, 12⟩] :=
      exists_ok_of_map (by decide +kernel)
    exact ⟨⟨0, _, _⟩, hts, _, _, .head rfl (.head rfl (.head rfl (.head rfl (.head rfl .refl)))), rfl, rfl, rfl,
      by decide, rfl⟩
  obtain ⟨hbalanced, hcloses, -⟩ := (stacks_balance hts List.suffix_rfl .empty).2 e hiterates
  obtain ⟨above, place, below, hsplit, -, hbelow⟩ := hcloses hclosing hopen hw
  rw [hstep] at hbelow
  have hoperands := hbalanced.operands
  rw [hw, ← Function.comp_def Operator.takesTwo, ← List.countP_map, hoperators] at hoperands
  exact ⟨s, hts, e, e', hiterates, hstep, hoperators, hoperands, above, place, hbelow ▸ hsplit⟩

end Expression

end Offside
