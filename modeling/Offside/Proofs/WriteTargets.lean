import Offside.Proofs.ExpressionRoots

/-!
# What expressions write to

An assignment takes its left operand as it is reduced, and is refused unless that is a variable that is not
constant. A step, `++` or `--`, is checked against the tokens around it before its operand is known: behind a
variable it applies to that variable, constant or not; in front of one it applies to whatever binds tighter.
-/

namespace Offside

set_option autoImplicit false

open Expression (isVariable)

/-- A variable, or a step behind one. -/
inductive Node.IsSteppable : Node → Prop where
  | var (v : Variable) : IsSteppable (.var v)
  | behind {o : Operator} {v : Variable} {place : Location} : o.standsBehind →
      IsSteppable (.unary o (.var v) place)

/-- What a step in front of a variable applies to: the power of it, if there is one. -/
inductive Node.BeginsWithVariable : Node → Prop where
  | alone {n : Node} : n.IsSteppable → BeginsWithVariable n
  | power {left right : Node} {place : Location} : left.IsSteppable →
      BeginsWithVariable (.binary .pow left right place)

/-- Whatever the node writes to is what its operator allows. -/
def Node.WritesAllowed : Node → Prop
  | .binary o left _ _ => o.group = .assignment → ∃ v, left = .var v ∧ v.isConstant = false
  | .unary o operand _ =>
    (o.standsBehind → ∃ v, operand = .var v) ∧
      (o = .preIncrement ∨ o = .preDecrement → operand.BeginsWithVariable)
  | _ => True

variable {symbols : SymbolTable} {q : Phrase} {t : Token}

/-! ## Tokens -/

theorem isVariable_of_kind (h : t.kind ≠ .identifier) : isVariable symbols t = false := by
  simp [isVariable, h]

theorem isVariable_of_isOperator {symbol : String} (h : t.isOperator symbol) :
    isVariable symbols t = false :=
  isVariable_of_kind (by simp [Token.kind_of_isOperator h])

theorem isVariable_of_isDelimiter {text : String} (h : t.isDelimiter text) :
    isVariable symbols t = false :=
  isVariable_of_kind (by simp [Token.kind_of_isDelimiter h])

theorem StepsFit.behind {after : Bool} {ts us : List Token} (h : StepsFit symbols after (ts ++ t :: us)) :
    StepsFit symbols (isVariable symbols t) us := by
  induction ts generalizing after with
  | nil => exact h.2
  | cons u ts ih => exact ih h.2

/-! ## Operands of steps -/

namespace Phrase

theorem tokens_ne_nil (q : Phrase) : q.tokens ≠ [] := by
  cases q <;> simp [tokens]

/-- The phrase begins with the name of a variable. -/
def Leads (symbols : SymbolTable) (q : Phrase) : Prop :=
  ∃ t ∈ q.tokens.head?, isVariable symbols t

theorem Leads.left {l r : Phrase} {o : Operator} (h : (between l t o r).Leads symbols) :
    l.Leads symbols := by
  obtain ⟨u, hu, hv⟩ := h
  refine ⟨u, ?_, hv⟩
  rwa [tokens, List.head?_append_of_ne_nil _ l.tokens_ne_nil] at hu

/-- What begins with a variable and has no operator that binds looser than a step behind one. -/
theorem Grammatical.isSteppable (h : q.Grammatical symbols) (hlead : q.Leads symbols)
    (hroot : ∀ c ∈ q.root?, 14 ≤ c.precedence) : q.node.IsSteppable := by
  obtain ⟨u, hu, hv⟩ := hlead
  cases h with
  | operand hn =>
    obtain rfl := Option.some.inj hu
    cases hn with
    | literal hk =>
      rw [isVariable_of_kind (by simp [hk])] at hv
      cases hv
    | var => exact .var _
    | reference hk hf => simp [isVariable, hk, hf] at hv
  | enclosed ha =>
    obtain rfl := Option.some.inj hu
    rw [isVariable_of_isDelimiter ha] at hv
    cases hv
  | before ht =>
    obtain rfl := Option.some.inj hu
    rw [isVariable_of_isOperator ht] at hv
    cases hv
  | behind _ _ ho => exact .behind ho
  | between _ _ ho =>
    have hle := (Operator.precedence_standsBetween ho).2
    have hge := hroot _ rfl
    omega

theorem eq_pow {o : Operator} (ho : o.standsBetween) (h : 13 ≤ o.precedence) : o = .pow := by
  have hle := (Operator.precedence_standsBetween ho).2
  have heq : o.precedence = 13 := Nat.le_antisymm hle h
  revert ho heq
  cases o <;> decide

/-- What a step in front of it takes as its operand. -/
theorem Grammatical.beginsWithVariable (h : q.Grammatical symbols) (hb : q.Bound)
    (hlead : q.Leads symbols) (hroot : ∀ c ∈ q.root?, 13 ≤ c.precedence) :
    q.node.BeginsWithVariable := by
  cases h with
  | @between l r t o hl ht ho hr =>
    obtain rfl := eq_pow ho (hroot _ rfl)
    obtain ⟨hleft, -, -, -⟩ := hb
    exact .power (hl.isSteppable hlead.left hleft)
  | operand ho => exact .alone ((Grammatical.operand ho).isSteppable hlead nofun)
  | enclosed ha hp hc => exact .alone ((Grammatical.enclosed ha hp hc).isSteppable hlead nofun)
  | before ht =>
    obtain ⟨u, hu, hv⟩ := hlead
    obtain rfl := Option.some.inj hu
    rw [isVariable_of_isOperator ht] at hv
    cases hv
  | behind _ _ ho => exact .alone (.behind ho)

/-- The symbol of a step in front is that of a step. -/
theorem isOperator_of_step {o : Operator} (ht : t.isOperator o.symbol)
    (ho : o = .preIncrement ∨ o = .preDecrement) : t.isOperator "++" ∨ t.isOperator "--" := by
  rcases ho with rfl | rfl
  · exact .inl ht
  · exact .inr ht

/-- Each operator of a phrase writes to what it may, if no variable stands in front of the phrase. -/
theorem Grammatical.writesAllowed (h : q.Grammatical symbols) (hb : q.Bound) (ha : q.AssignsVariables)
    {rest : List Token} (hs : StepsFit symbols false (q.tokens ++ rest)) :
    ∀ n ∈ q.node.parts, n.WritesAllowed := by
  induction h generalizing rest with
  | operand hn => cases hn <;> exact List.forall_mem_singleton.mpr trivial
  | @enclosed a b p hopen _ _ ih =>
    have hinner : StepsFit symbols (isVariable symbols a) (p.tokens ++ [b] ++ rest) := hs.2
    rw [isVariable_of_isDelimiter hopen, List.append_assoc] at hinner
    exact ih hb ha hinner
  | @before t o p ht ho hp ih =>
    obtain ⟨hroot, hbound⟩ := hb
    have hinner := hs.2
    rw [isVariable_of_isOperator ht] at hinner
    refine List.forall_mem_cons.mpr ⟨⟨fun hbehind => ?_, fun hstep => ?_⟩, ih hbound ha hinner⟩
    · rw [Operator.not_standsBefore_of_standsBehind hbehind] at ho
      cases ho
    · rcases hs.1 (isOperator_of_step ht hstep) with hafter | hnext
      · cases hafter
      · refine hp.beginsWithVariable hbound ?_ fun c hc => ?_
        · change ∃ next ∈ (p.tokens ++ rest).head?, isVariable symbols next at hnext
          rwa [List.head?_append_of_ne_nil _ p.tokens_ne_nil] at hnext
        · have htakes := hroot c hc
          rcases hstep with rfl | rfl <;> exact htakes
  | @behind name t v o hn ht ho =>
    refine List.forall_mem_cons.mpr ⟨⟨fun _ => ⟨v, rfl⟩, fun hstep => ?_⟩, ?_⟩
    · rcases hstep with rfl | rfl <;> cases ho
    · exact List.forall_mem_singleton.mpr trivial
  | @between l r t o _ ht _ _ ihl ihr =>
    obtain ⟨-, -, hbl, hbr⟩ := hb
    obtain ⟨hassign, hal, har⟩ := ha
    have htokens : (Phrase.between l t o r).tokens ++ rest = l.tokens ++ t :: (r.tokens ++ rest) := by
      simp [tokens]
    rw [htokens] at hs
    have hright := hs.behind
    rw [isVariable_of_isOperator ht] at hright
    refine List.forall_mem_cons.mpr ⟨hassign, List.forall_mem_append.mpr ⟨?_, ?_⟩⟩
    · exact ihl hbl hal hs
    · exact ihr hbr har hright

end Phrase

/-- Assignments write to variables that are not constant; steps behind a variable to that variable, steps in
front of one to it or to a power of it. -/
theorem compile_writes {file source : String} {s : Scope} (h : compile file source = .ok s) :
    ∀ e ∈ s.expressions, ∀ n ∈ e.parts, n.WritesAllowed := by
  intro e he
  rcases roots_compile h e he with ⟨symbols, ts, hexpressed⟩ | ⟨v, rfl⟩
  · obtain ⟨q, hq, hbound, rfl, hsteps, hassigns, hfold⟩ := hexpressed
    rcases Node.fold_eq_ok hfold with rfl | ⟨l, -, rfl⟩
    · rw [← List.append_nil q.tokens] at hsteps
      exact hq.writesAllowed hbound hassigns hsteps
    · exact List.forall_mem_singleton.mpr trivial
  · exact List.forall_mem_singleton.mpr trivial

/-- Each kind of write, the last one in front of a power. -/
theorem compile_writes_power :
    ∃ s, compile "" "a := 1\na += a++\n++a ^ 2\n" = .ok s ∧
      (s.expressions.flatMap Node.parts).length = 9 ∧
      ∀ e ∈ s.expressions, ∀ n ∈ e.parts, n.WritesAllowed := by
  have hok : ((compile "" "a := 1\na += a++\n++a ^ 2\n").map fun s =>
      (s.expressions.flatMap Node.parts).length).toOption = some 9 := by decide +kernel
  obtain ⟨s, hs, hlength⟩ := Execution.exists_ok_of_map hok
  exact ⟨s, hs, hlength, compile_writes hs⟩

def Node.stepsConstant : Node → Bool
  | .unary .postIncrement (.var v) _ => v.isConstant
  | _ => false

/-- The parameter `c` is constant, and the body of the function counts it up. -/
theorem step_writes_constant :
    ∃ s, compile "test.ic" "f :: (c :: 1)\n    c++\n" = .ok s ∧
      ∃ e ∈ s.expressions, ∃ v place,
        .unary .postIncrement (.var v) place ∈ e.parts ∧ v.isConstant = true := by
  have hok : ((compile "test.ic" "f :: (c :: 1)\n    c++\n").map fun s =>
      s.expressions.any fun e => e.parts.any Node.stepsConstant).toOption = some true := by
    decide +kernel
  obtain ⟨s, hs, hsteps⟩ := Execution.exists_ok_of_map hok
  obtain ⟨e, he, hparts⟩ := List.any_eq_true.mp hsteps
  obtain ⟨n, hn, hconstant⟩ := List.any_eq_true.mp hparts
  unfold Node.stepsConstant at hconstant
  split at hconstant
  · next v place => exact ⟨s, hs, e, he, v, place, hn, hconstant⟩
  · cases hconstant

end Offside
