import Offside.Proofs.Variation

/-!
# Two runs over an expression

An expression ends inside of its line, so that two runs come out alike: the operands and the operators that
wait are the same but for their places.
-/

namespace Offside

set_option autoImplicit false

open Execution Expression

inductive PendingOperator.Like (moves : Location → Location → Prop) :
    PendingOperator → PendingOperator → Prop where
  | mk {o : Operator} {l m : Location} : moves l m → Like moves ⟨o, l⟩ ⟨o, m⟩

namespace Variation

/-- The bounds of two runs: nothing but the end of the text may come earlier in the first one. -/
structure Bounds (v : Variation) (n m : Nat) : Prop where
  le : n ≤ m
  eq : ¬ v.goesOn → n = m

/-- An expression in the making in the two runs. -/
structure Building (v : Variation) (e f : Expression) : Prop where
  streams : v.Streams e.stream f.stream
  operands : List.Forall₂ (Node.Like v.words) e.operands f.operands
  operators : List.Forall₂ (PendingOperator.Like v.words) e.operators f.operators
  wantsOperand : f.wantsOperand = e.wantsOperand
  afterVariable : f.afterVariable = e.afterVariable
  parentheses : f.parentheses = e.parentheses

/-- The runs of an action on expressions. -/
def Builds (v : Variation) {α β : Type} (related : α → β → Prop) :
    EStateM.Result Diagnostic Expression α → EStateM.Result Diagnostic Expression β → Prop :=
  v.Agree (fun _ _ => False) fun a b e f => related a b ∧ v.Building e f

variable {v : Variation} {α β γ δ : Type} {e f : Expression} {symbols symbols' : SymbolTable}
  {t u : Token} {n m : Nat}

theorem Bounds.succ (h : v.Bounds (n + 1) m) : ∃ m', m = m' + 1 ∧ v.Bounds n m' := by
  obtain ⟨hle, heq⟩ := h
  cases m with
  | zero => cases hle
  | succ m => exact ⟨m, rfl, Nat.le_of_succ_le_succ hle, fun hgoes => Nat.succ.inj (heq hgoes)⟩

/-- A first run without steps is at the end of its text, unless the second run has none either. -/
theorem Bounds.zero (h : v.Bounds 0 m) : v.goesOn ∨ ¬ v.goesOn ∧ m = 0 := by
  by_cases hgoes : v.goesOn
  · exact .inl hgoes
  · exact .inr ⟨hgoes, (h.eq hgoes).symm⟩

theorem Shares.length {ts us : List Token} (h : v.Shares ts us) : v.Bounds ts.length us.length := by
  induction h with
  | nil => exact ⟨Nat.le_refl _, fun _ => rfl⟩
  | cons _ _ ih => exact ⟨Nat.succ_le_succ ih.le, fun hgoes => congrArg (· + 1) (ih.eq hgoes)⟩
  | ends hgoes _ hne => exact ⟨List.length_pos_of_ne_nil hne, fun hgoes' => absurd hgoes hgoes'⟩

theorem Builds.bind {ended : γ → Expression → Prop} {related : α → β → Prop}
    {related' : γ → δ → Expression → Expression → Prop} {x : Build α} {y : Build β} {g : α → Build γ}
    {g' : β → Build δ} (h : v.Builds related (x e) (y f))
    (hg : ∀ a b e' f', related a b → v.Building e' f' → v.Agree ended related' (g a e') (g' b f')) :
    v.Agree ended related' ((x >>= g) e) ((y >>= g') f) :=
  Agree.bind h (fun a b e' f' hab => hg a b e' f' hab.1 hab.2) (fun _ _ _ _ _ h => h.elim)

namespace Pair

theorem ofToken (ht : v.Pair t u) (hw : t.endsStatement = false) :
    Likewise v.words (Literal.Like v.words) (Literal.ofToken t) (Literal.ofToken u) := by
  have hplace := ht.word (.inl hw)
  unfold Literal.ofToken
  rw [ht.type, ht.text hw]
  split
  · exact .error ⟨hplace⟩
  · split
    · exact .ok ⟨hplace⟩
    · exact .error ⟨hplace⟩

theorem isVariable (ht : v.Pair t u) (hs : symbols.Like v.words symbols') :
    Expression.isVariable symbols' u = Expression.isVariable symbols t := by
  unfold Expression.isVariable
  rw [ht.kind]
  by_cases hk : t.kind = .identifier
  · rw [ht.text (by simp [Token.endsStatement, hk])]
    have hfound := hs.lookup? t.text
    generalize symbols.lookup? t.text = a at hfound
    generalize symbols'.lookup? t.text = b at hfound
    cases hfound with
    | none => rfl
    | some hi => cases hi <;> rfl
  · rw [beq_eq_false_iff_ne.mpr hk, Bool.false_and, Bool.false_and]

theorem resolve (ht : v.Pair t u) (hw : t.endsStatement = false) (operator : Operator)
    (wantsOperand afterVariable nextIsVariable : Bool) :
    Likewise v.words Eq (Expression.resolve t operator wantsOperand afterVariable nextIsVariable)
      (Expression.resolve u operator wantsOperand afterVariable nextIsVariable) := by
  have hplace := ht.word (.inl hw)
  unfold Expression.resolve
  rw [ht.text hw]
  repeat' split
  all_goals first | exact .ok rfl | exact .error ⟨hplace⟩

end Pair

namespace Building

theorem fail (h : v.Building e f) (fault : Fault) {related : α → β → Prop} :
    v.Builds related ((Expression.fail fault : Build α) e) ((Expression.fail fault : Build β) f) :=
  .error ⟨h.streams.current.place⟩

theorem throw {d d' : Diagnostic} (h : d.Like v.words d') {related : α → β → Prop} :
    v.Builds related ((throw d : Build α) e) ((throw d' : Build β) f) := by
  obtain ⟨h⟩ := h
  exact .error ⟨v.stops_of_words h⟩

theorem advance (h : v.Building e f) (hw : e.stream.current.endsStatement = false) :
    v.Building { e with stream := e.stream.advance } { f with stream := f.stream.advance } :=
  ⟨h.streams.advance fun _ => hw, h.operands, h.operators, h.wantsOperand, h.afterVariable,
    h.parentheses⟩

/-! ## Taking operands -/

theorem checkTarget {top top' : PendingOperator} {left left' : Node} (ht : top.Like v.words top')
    (hl : left.Like v.words left') :
    Likewise v.words Eq (Expression.checkTarget top left) (Expression.checkTarget top' left') := by
  obtain ⟨ht⟩ := ht
  unfold Expression.checkTarget
  split
  · exact .ok rfl
  · cases hl with
    | var hv =>
      cases hv
      dsimp only
      split
      · exact .error ⟨ht⟩
      · exact .ok rfl
    | _ => exact .error ⟨ht⟩

theorem with_operands (h : v.Building e f) {ns ms : List Node}
    (hns : List.Forall₂ (Node.Like v.words) ns ms) :
    v.Building { e with operands := ns } { f with operands := ms } :=
  ⟨h.streams, hns, h.operators, h.wantsOperand, h.afterVariable, h.parentheses⟩

theorem reduce (h : v.Building e f) {top top' : PendingOperator} (ht : top.Like v.words top') :
    v.Builds Eq (Expression.reduce top e) (Expression.reduce top' f) := by
  have htop := ht
  obtain ⟨hl⟩ := ht
  unfold Expression.reduce
  rw [get_bind, get_bind]
  have hoperands := h.operands
  generalize e.operands = ns at hoperands
  generalize f.operands = ms at hoperands
  dsimp only
  generalize Operator.isUnary _ = unary
  cases unary with
  | true =>
    cases hoperands with
    | nil => exact throw ⟨hl⟩
    | cons hn hns => exact .ok ⟨rfl, h.with_operands (.cons (.unary hn hl) hns)⟩
  | false =>
    cases hoperands with
    | nil => exact throw ⟨hl⟩
    | cons hn hns =>
      cases hns with
      | nil => exact throw ⟨hl⟩
      | cons hm hns =>
        have htarget := checkTarget htop hm
        dsimp only
        generalize Expression.checkTarget _ _ = a at htarget
        generalize Expression.checkTarget _ _ = b at htarget
        cases htarget with
        | ok => exact .ok ⟨rfl, h.with_operands (.cons (.binary hm hn hl) hns)⟩
        | error hd =>
          obtain ⟨hd⟩ := hd
          exact .error ⟨v.stops_of_words hd⟩

theorem reduceWhile (h : v.Building e f) (ready : Operator → Bool) {stack stack' : List PendingOperator}
    (hs : List.Forall₂ (PendingOperator.Like v.words) stack stack') :
    v.Builds Eq (Expression.reduceWhile ready stack e) (Expression.reduceWhile ready stack' f) := by
  induction hs generalizing e f with
  | nil => exact .ok ⟨rfl, h⟩
  | @cons top top' below below' ht hbelow ih =>
    unfold Expression.reduceWhile
    have hoperator : top'.operator = top.operator := by
      cases ht
      rfl
    rw [hoperator]
    split
    · rw [modify_bind, modify_bind]
      have h' : v.Building { e with operators := below } { f with operators := below' } :=
        ⟨h.streams, h.operands, hbelow, h.wantsOperand, h.afterVariable, h.parentheses⟩
      exact (h'.reduce ht).bind fun _ _ _ _ _ h'' => ih h''
    · exact .ok ⟨rfl, h⟩

theorem pushOperator (h : v.Building e f) (operator : Operator) {l l' : Location}
    (hl : v.words l l') :
    v.Builds Eq (Expression.pushOperator operator l e) (Expression.pushOperator operator l' f) := by
  unfold Expression.pushOperator
  rw [get_bind, get_bind]
  refine (h.reduceWhile _ h.operators).bind fun _ _ _ _ _ h' => ?_
  exact .ok ⟨rfl, h'.streams, h'.operands, .cons ⟨hl⟩ h'.operators, h'.wantsOperand, h'.afterVariable,
    h'.parentheses⟩

/-! ## One token -/

theorem openParenthesis (h : v.Building e f) (hw : e.stream.current.endsStatement = false) :
    v.Builds Eq (Expression.openParenthesis e.stream.current e)
      (Expression.openParenthesis f.stream.current f) := by
  unfold Expression.openParenthesis
  rw [get_bind, get_bind, h.wantsOperand]
  split
  · exact h.fail _
  · have h' := h.advance hw
    exact .ok ⟨rfl, h'.streams, h'.operands, .cons ⟨h.streams.current.word (.inl hw)⟩ h'.operators,
      h'.wantsOperand, rfl, congrArg (· + 1) h'.parentheses⟩

theorem closeParenthesis (h : v.Building e f) (hw : e.stream.current.endsStatement = false) :
    v.Builds Eq (Expression.closeParenthesis e) (Expression.closeParenthesis f) := by
  unfold Expression.closeParenthesis
  rw [get_bind, get_bind, h.wantsOperand]
  split
  · exact h.fail _
  · have h' := h.advance hw
    have hclosed : v.Building { e with stream := e.stream.advance, parentheses := e.parentheses - 1 }
        { f with stream := f.stream.advance, parentheses := f.parentheses - 1 } :=
      ⟨h'.streams, h'.operands, h'.operators, h'.wantsOperand, h'.afterVariable,
        congrArg (· - 1) h'.parentheses⟩
    refine (hclosed.reduceWhile _ hclosed.operators).bind fun _ _ e' f' _ h'' => ?_
    have hbelow : List.Forall₂ (PendingOperator.Like v.words) e'.operators.tail f'.operators.tail := by
      have hoperators := h''.operators
      generalize e'.operators = stack at hoperators
      generalize f'.operators = stack' at hoperators
      cases hoperators with
      | nil => exact .nil
      | cons _ hbelow => exact hbelow
    exact .ok ⟨rfl, h''.streams, h''.operands, hbelow, h''.wantsOperand, rfl, h''.parentheses⟩

theorem pushOperand (h : v.Building e f) {n m : Node} (hn : n.Like v.words m) (isVariable : Bool) :
    v.Builds Eq (Expression.pushOperand n isVariable e) (Expression.pushOperand m isVariable f) :=
  .ok ⟨rfl, h.streams, .cons hn h.operands, h.operators, rfl, rfl, h.parentheses⟩

theorem literal (h : v.Building e f) (hw : e.stream.current.endsStatement = false) :
    v.Builds Eq (Expression.literal e.stream.current e) (Expression.literal f.stream.current f) := by
  unfold Expression.literal
  rw [get_bind, get_bind, h.wantsOperand]
  split
  · exact h.fail _
  · have h' := h.advance hw
    have hvalue := h.streams.current.ofToken hw
    dsimp only
    generalize Literal.ofToken e.stream.current = a at hvalue
    generalize Literal.ofToken f.stream.current = b at hvalue
    cases hvalue with
    | ok hl => exact h'.pushOperand (.literal hl) false
    | error hd => exact throw hd

theorem identifier (h : v.Building e f) (hs : symbols.Like v.words symbols')
    (hw : e.stream.current.endsStatement = false) :
    v.Builds Eq (Expression.identifier symbols e.stream.current e)
      (Expression.identifier symbols' f.stream.current f) := by
  unfold Expression.identifier
  rw [get_bind, get_bind, h.wantsOperand, h.streams.current.text hw]
  split
  · exact h.fail _
  · have h' := h.advance hw
    have hfound := hs.lookup? e.stream.current.text
    dsimp only
    generalize symbols.lookup? e.stream.current.text = a at hfound
    generalize symbols'.lookup? e.stream.current.text = b at hfound
    cases hfound with
    | none => exact h.fail _
    | some hi =>
      cases hi with
      | var hl => exact h'.pushOperand (.var (.var hl)) true
      | constant => exact h.fail _
      | function hl => exact h'.pushOperand (.reference (.function hl)) false

theorem operator (h : v.Building e f) (hs : symbols.Like v.words symbols')
    (hw : e.stream.current.endsStatement = false) :
    v.Builds Eq (Expression.operator symbols e.stream.current e)
      (Expression.operator symbols' f.stream.current f) := by
  have ht := h.streams.current
  unfold Expression.operator
  rw [ht.text hw]
  cases Operator.ofSymbol? e.stream.current.text with
  | none => exact h.fail _
  | some symbolOperator =>
    have h' := h.advance hw
    have hresolve : Likewise v.words Eq
        (Expression.resolve e.stream.current symbolOperator e.wantsOperand e.afterVariable
          (Expression.isVariable symbols e.stream.advance.current))
        (Expression.resolve f.stream.current symbolOperator f.wantsOperand f.afterVariable
          (Expression.isVariable symbols' f.stream.advance.current)) := by
      rw [h.wantsOperand, h.afterVariable, h'.streams.current.isVariable hs]
      exact ht.resolve hw _ _ _ _
    dsimp only
    rw [Expression.advance, modify_bind, modify_bind, get_bind, get_bind]
    dsimp only
    generalize Expression.resolve e.stream.current _ _ _ _ = a at hresolve
    generalize Expression.resolve f.stream.current _ _ _ _ = b at hresolve
    cases hresolve with
    | error hd => exact throw hd
    | ok heq =>
      subst heq
      refine (h'.pushOperator _ (ht.word (.inl hw))).bind fun _ _ _ _ _ h'' => ?_
      exact .ok ⟨rfl, h''.streams, h''.operands, h''.operators, rfl, rfl, h''.parentheses⟩

/-! ## The whole expression -/

/-- An expression ends in front of the first token that it does not take. -/
theorem step (h : v.Building e f) (hs : symbols.Like v.words symbols') :
    v.Builds Eq (Expression.step symbols e) (Expression.step symbols' f) := by
  have hcurrent := h.streams.current
  unfold Expression.step
  rw [get_bind, get_bind]
  dsimp only
  rw [hcurrent.kind]
  cases hk : e.stream.current.kind with
  | endOfStatement | endOfFile => exact .ok ⟨rfl, h⟩
  | delimiter =>
    have hw : e.stream.current.endsStatement = false := by simp [Token.endsStatement, hk]
    dsimp only
    rw [hcurrent.text hw, h.parentheses]
    repeat' split
    · exact .ok ⟨rfl, h⟩
    · exact (h.openParenthesis hw).bind fun _ _ _ _ _ h' => .ok ⟨rfl, h'⟩
    · exact (h.closeParenthesis hw).bind fun _ _ _ _ _ h' => .ok ⟨rfl, h'⟩
    · exact h.fail _
  | literal =>
    have hw : e.stream.current.endsStatement = false := by simp [Token.endsStatement, hk]
    exact (h.literal hw).bind fun _ _ _ _ _ h' => .ok ⟨rfl, h'⟩
  | identifier =>
    have hw : e.stream.current.endsStatement = false := by simp [Token.endsStatement, hk]
    exact (h.identifier hs hw).bind fun _ _ _ _ _ h' => .ok ⟨rfl, h'⟩
  | operator =>
    have hw : e.stream.current.endsStatement = false := by simp [Token.endsStatement, hk]
    exact (h.operator hs hw).bind fun _ _ _ _ _ h' => .ok ⟨rfl, h'⟩
  | keyword =>
    have hw : e.stream.current.endsStatement = false := by simp [Token.endsStatement, hk]
    dsimp only
    rw [hcurrent.text hw]
    exact h.fail _

theorem steps (h : v.Building e f) (hs : symbols.Like v.words symbols') (hbounds : v.Bounds n m) :
    v.Builds Eq (Expression.steps symbols n e) (Expression.steps symbols' m f) := by
  induction n generalizing m e f with
  | zero =>
    rcases hbounds.zero with hgoes | ⟨-, rfl⟩
    · exact .missing hgoes rfl
    · exact h.fail _
  | succ n ih =>
    obtain ⟨m, rfl, hfewer⟩ := hbounds.succ
    unfold Expression.steps
    refine (h.step hs).bind fun more more' _ _ hmore h' => ?_
    subst hmore
    cases more with
    | true => exact ih h' hfewer
    | false => exact .ok ⟨rfl, h'⟩

theorem finish (h : v.Building e f) :
    v.Builds (Node.Like v.words) (Expression.finish e) (Expression.finish f) := by
  unfold Expression.finish
  rw [get_bind, get_bind, h.parentheses]
  split
  · exact h.fail _
  · refine (h.reduceWhile _ h.operators).bind fun _ _ e' f' _ h' => ?_
    rw [get_bind, get_bind]
    have hoperands := h'.operands
    generalize e'.operands = ns at hoperands
    generalize f'.operands = ms at hoperands
    cases hoperands with
    | nil => exact h'.fail _
    | cons hn hns =>
      have h'' := h'.with_operands hns
      cases hns with
      | nil => exact .ok ⟨hn, h''⟩
      | cons => exact h''.fail _

theorem tree (h : v.Building e f) (hs : symbols.Like v.words symbols') :
    v.Builds (Node.Like v.words) (Expression.tree symbols e) (Expression.tree symbols' f) := by
  unfold Expression.tree
  rw [get_bind, get_bind]
  exact (h.steps hs h.streams.shares.length).bind fun _ _ _ _ _ h' => h'.finish

end Building

theorem Inside.expressionTree {p q : Parser} (h : v.Inside p q) :
    v.Inline (Node.Like v.words) (Parse.expressionTree p) (Parse.expressionTree q) := by
  have hstart : v.Building (.start p.stream) (.start q.stream) :=
    ⟨h.streams, .nil, .nil, rfl, rfl, rfl⟩
  have htree := hstart.tree h.symbols
  unfold Parse.expressionTree
  generalize Expression.tree p.symbols _ = r at htree
  generalize Expression.tree q.symbols _ = r' at htree
  cases htree with
  | ok hn => exact .ok ⟨hn.1, ⟨h.level, h.symbols, h.keywords, h.next⟩, hn.2.streams⟩
  | error hd => exact .error hd
  | missing hgoes hd =>
    cases r' with
    | ok => exact .missing hgoes hd
    | error => exact .missing hgoes hd
  | ended _ hended => exact hended.elim

theorem Inside.expression {p q : Parser} (h : v.Inside p q) :
    v.Inline (Node.Like v.words) (Parse.expression p) (Parse.expression q) :=
  h.expressionTree.bind fun _ _ _ _ hn h' => h'.liftExcept (Node.fold_like hn)

end Variation

end Offside
