import Offside.Proofs.DeclaredNames
import Offside.Proofs.FoldingLaws
import Offside.Proofs.RunInvariant

/-!
# The places in an expression

The nodes of an expression stand where its tokens do, except that a name has the place of its declaration. A
fault in an expression is found at a token; only one about the type that the whole expression has may point at
the declaration of a name.
-/

namespace Offside

set_option autoImplicit false

open Execution TokenStream

/-- A token stands there. -/
def Placed (ts : List Token) (place : Location) : Prop := ∃ t ∈ ts, t.location = place

/-- The tokens name something that is known already. -/
def Recalls (known : Frame) (ts : List Token) (i : Identifier) : Prop :=
  i ∈ known ∧ ∃ t ∈ ts, t.kind = .identifier ∧ t.text = i.name

/-- The name is declared by the tokens, or known already. -/
def Identifier.Sits (known : Frame) (ts : List Token) (i : Identifier) : Prop :=
  Placed ts i.location ∨ i ∈ known

/-- Faults about the type that an expression has, and not about the types of its parts. -/
inductive Fault.RejectsType : Fault → Prop where
  | condition : RejectsType .expectedBoolean
  | void : RejectsType .voidDataType
  | mismatch (type : DataType) : RejectsType (.expectedType type)

/-- At one of the tokens or, if the fault is about a type, at the declaration of a known name among them. -/
def Diagnostic.Points (known : Frame) (ts : List Token) (d : Diagnostic) : Prop :=
  Placed ts d.location ∨
    d.fault.RejectsType ∧ ∃ i, Recalls known ts i ∧ i.location = d.location

section Places

variable {known : Frame} {ts : List Token}

/-! ## Expressions -/

/-- The nodes of an expression that is read from the tokens. -/
inductive Node.Sits (known : Frame) (ts : List Token) : Node → Prop where
  | literal {l : Literal} (h : Placed ts l.location) : Sits known ts (.literal l)
  | name {i : Identifier} (h : Placed ts i.location ∨ Recalls known ts i) : Sits known ts i.toNode
  | unary {o : Operator} {operand : Node} {place : Location} (h : Placed ts place)
    (hoperand : operand.Sits known ts) : Sits known ts (.unary o operand place)
  | binary {o : Operator} {left right : Node} {place : Location} (h : Placed ts place)
    (hleft : left.Sits known ts) (hright : right.Sits known ts) :
    Sits known ts (.binary o left right place)

namespace Node

variable {n m : Node} {d : Diagnostic}

theorem Sits.location (h : n.Sits known ts) :
    ∃ place, n.location? = some place ∧
      (Placed ts place ∨ ∃ i, Recalls known ts i ∧ i.location = place) := by
  cases h with
  | literal h => exact ⟨_, rfl, .inl h⟩
  | @name i h =>
    refine ⟨i.location, i.location?_toNode, ?_⟩
    rcases h with h | h
    · exact .inl h
    · exact .inr ⟨i, h, rfl⟩
  | unary h => exact ⟨_, rfl, .inl h⟩
  | binary h => exact ⟨_, rfl, .inl h⟩

/-- Two operands of different types are reported at their operator. -/
theorem Sits.type?_error (h : n.Sits known ts) (he : n.type? = .error d) : Placed ts d.location := by
  induction h generalizing d with
  | literal h => cases he
  | @name i h =>
    rw [i.type?_toNode] at he
    cases he
  | unary h hoperand ih => exact ih he
  | @binary o left right place h hleft hright ihleft ihright =>
    rw [type?] at he
    cases hl : left.type? with
    | error e =>
      rw [hl] at he
      cases he
      exact ihleft hl
    | ok l =>
      cases hr : right.type? with
      | error e =>
        rw [hl, hr] at he
        cases he
        exact ihright hr
      | ok r =>
        rw [hl, hr] at he
        by_cases hlr : l = r
        · simp [hlr, bind, Except.bind, pure, Except.pure] at he
        · simp only [bind, Except.bind, ne_eq, hlr, not_false_eq_true, if_true] at he
          cases he
          exact h

theorem Sits.value? (h : n.Sits known ts) :
    (∀ l, n.value? = .ok (some l) → Placed ts l.location) ∧
      ∀ d, n.value? = .error d → Placed ts d.location := by
  induction h with
  | literal h =>
    constructor
    · intro l hl
      cases hl
      exact h
    · exact nofun
  | @name i h =>
    rw [i.value?_toNode]
    exact ⟨nofun, nofun⟩
  | unary => exact ⟨nofun, nofun⟩
  | binary h hleft hright ihleft ihright =>
    constructor
    · intro l hl
      obtain ⟨x, _, _, _, hx, -, -, -, -, rfl⟩ := value?_binary_ok hl
      exact ihleft.1 x hx
    · intro d hd
      rcases value?_binary_error hd with hd | hd | ⟨x, hx, hplace | hplace⟩
      · exact ihleft.2 d hd
      · exact ihright.2 d hd
      · rw [hplace]
        exact h
      · rw [hplace]
        exact ihleft.1 x hx

theorem fold_error (h : n.fold = .error d) : n.value? = .error d := by
  unfold fold at h
  rcases hv : n.value? with e | _ | l
  · rw [hv] at h
    cases h
    rfl
  · rw [hv] at h
    cases h
  · rw [hv] at h
    cases h

theorem Sits.fold (h : n.Sits known ts) :
    (∀ m, n.fold = .ok m → m.Sits known ts) ∧ ∀ d, n.fold = .error d → Placed ts d.location := by
  constructor
  · intro m hm
    rcases fold_eq_ok hm with rfl | ⟨l, hl, rfl⟩
    · exact h
    · exact .literal (h.value?.1 l hl)
  · intro d hd
    exact h.value?.2 d (fold_error hd)

/-- A fault about the type of the whole expression has the place of the expression. -/
theorem Sits.points (h : n.Sits known ts) {fault : Fault} (hfault : fault.RejectsType)
    (place : Location) : Diagnostic.Points known ts ⟨fault, n.locationOr place⟩ := by
  obtain ⟨own, hown, hplace⟩ := h.location
  have heq : n.locationOr place = own := by rw [locationOr, hown, Option.getD_some]
  rw [heq]
  rcases hplace with hplace | hname
  · exact .inl hplace
  · exact .inr ⟨hfault, hname⟩

theorem Sits.typeAs_error (h : n.Sits known ts) {declared : DataType} {place : Location}
    (hplace : Placed ts place) (he : n.typeAs declared place = .error d) : d.Points known ts := by
  unfold typeAs at he
  cases htype : n.type? with
  | error e =>
    rw [htype] at he
    cases he
    exact .inl (h.type?_error htype)
  | ok type =>
    simp only [htype, bind, Except.bind] at he
    split at he
    · split at he
      · cases he
        exact h.points .void place
      · cases he
    · cases he
      exact .inl hplace
    · split at he
      · cases he
        exact h.points (.mismatch declared) place
      · cases he

theorem Sits.checkBoolean_error (h : n.Sits known ts) {place : Location}
    (he : n.checkBoolean place = .error d) : d.Points known ts := by
  unfold checkBoolean at he
  cases htype : n.type? with
  | error e =>
    rw [htype] at he
    cases he
    exact .inl (h.type?_error htype)
  | ok type =>
    simp only [htype, bind, Except.bind] at he
    split at he
    · cases he
      exact h.points .condition place
    · cases he

end Node

end Places

/-! ## Streams -/

theorem TokenStream.current_mem (s : TokenStream) : s.current ∈ s.tokens := List.mem_cons_self ..

theorem TokenStream.advance_suffix (s : TokenStream) : s.advance.tokens <:+ s.tokens := by
  unfold advance
  split
  · exact List.suffix_rfl
  · next hrest =>
    split
    · exact List.suffix_rfl
    · unfold tokens
      rw [hrest]
      exact List.suffix_cons ..

/-! ## Building an expression -/

namespace Expression

variable {known : Frame} {ts : List Token} {symbols : SymbolTable} {e : Expression} {t : Token}

/-- What is on the stacks comes from the tokens. -/
structure Within (known : Frame) (ts : List Token) (e : Expression) : Prop where
  stream : e.stream.tokens <:+ ts
  operands : ∀ n ∈ e.operands, n.Sits known ts
  operators : ∀ o ∈ e.operators, Placed ts o.location

theorem Within.current (h : e.Within known ts) : e.stream.current ∈ ts :=
  h.stream.mem e.stream.current_mem

/-- From what is on the stacks to what is on the stacks; a fault is at a token. -/
abbrev Inside {α : Type} (known : Frame) (ts : List Token) (x : Build α) (Q : α → Prop) : Prop :=
  Keeps (Within known ts) (fun d => Placed ts d.location) x Q

theorem inside_fail {α : Type} {fault : Fault} {Q : α → Prop} :
    Inside known ts (fail fault) Q := by
  refine keeps_bind keeps_get fun e he => keeps_throw ?_
  exact ⟨_, he.current, rfl⟩

theorem inside_advance : Inside known ts advance fun _ => True := by
  refine keeps_modify fun e he => ⟨?_, he.operands, he.operators⟩
  exact e.stream.advance_suffix.trans he.stream

theorem checkTarget_error {top : PendingOperator} {left : Node} {d : Diagnostic}
    (h : checkTarget top left = .error d) : d.location = top.location := by
  unfold checkTarget at h
  split at h
  · cases h
  · split at h
    · split at h
      · cases h
        rfl
      · cases h
    · cases h
      rfl

theorem inside_reduce {top : PendingOperator} (htop : Placed ts top.location) :
    Inside known ts (reduce top) fun _ => True := by
  refine keeps_bind keeps_get fun e he => ?_
  split
  · next operand rest _ hstack =>
    have hs := he.operands
    rw [hstack] at hs
    refine keeps_set ⟨he.stream, ?_, he.operators⟩
    refine List.forall_mem_cons.mpr ⟨.unary htop (hs _ (List.mem_cons_self ..)), ?_⟩
    exact fun n hn => hs n (List.mem_cons_of_mem _ hn)
  · next right left rest _ hstack =>
    have hs := he.operands
    rw [hstack] at hs
    have hrest : ∀ n ∈ rest, n.Sits known ts := by
      intro n hn
      exact hs n (List.mem_cons_of_mem _ (List.mem_cons_of_mem _ hn))
    split
    · refine keeps_set ⟨he.stream, List.forall_mem_cons.mpr ⟨?_, hrest⟩, he.operators⟩
      exact .binary htop (hs _ (List.mem_cons_of_mem _ (List.mem_cons_self ..)))
        (hs _ (List.mem_cons_self ..))
    · next d hd =>
      refine keeps_bind (keeps_set ⟨he.stream, hrest, he.operators⟩) fun _ _ => keeps_throw ?_
      rw [checkTarget_error hd]
      exact htop
  · exact keeps_throw htop

theorem inside_reduceWhile (ready : Operator → Bool) {stack : List PendingOperator}
    (hstack : ∀ o ∈ stack, Placed ts o.location) :
    Inside known ts (reduceWhile ready stack) fun _ => True := by
  induction stack with
  | nil => exact keeps_pure trivial
  | cons top below ih =>
    obtain ⟨htop, hbelow⟩ := List.forall_mem_cons.mp hstack
    rw [reduceWhile]
    split
    · refine keeps_bind (keeps_modify fun e he => ⟨he.stream, he.operands, hbelow⟩) fun _ _ => ?_
      exact keeps_bind (inside_reduce htop) fun _ _ => ih hbelow
    · exact keeps_pure trivial

theorem inside_pushOperator {o : Operator} {place : Location} (h : Placed ts place) :
    Inside known ts (pushOperator o place) fun _ => True := by
  refine keeps_bind keeps_get fun e he => ?_
  refine keeps_bind (inside_reduceWhile _ he.operators) fun _ _ => keeps_modify fun e' he' => ?_
  exact ⟨he'.stream, he'.operands, List.forall_mem_cons.mpr ⟨h, he'.operators⟩⟩

theorem inside_pushOperand {n : Node} (h : n.Sits known ts) (isVariable : Bool) :
    Inside known ts (pushOperand n isVariable) fun _ => True :=
  keeps_modify fun _ he => ⟨he.stream, List.forall_mem_cons.mpr ⟨h, he.operands⟩, he.operators⟩

theorem inside_openParenthesis (ht : t ∈ ts) :
    Inside known ts (openParenthesis t) fun _ => True := by
  refine keeps_bind keeps_get fun _ _ => keeps_unless inside_fail ?_
  refine keeps_bind inside_advance fun _ _ => keeps_modify fun e he => ?_
  exact ⟨he.stream, he.operands, List.forall_mem_cons.mpr ⟨⟨t, ht, rfl⟩, he.operators⟩⟩

theorem inside_closeParenthesis : Inside known ts closeParenthesis fun _ => True := by
  refine keeps_bind keeps_get fun _ _ => keeps_unless inside_fail ?_
  refine keeps_bind inside_advance fun _ _ => ?_
  refine keeps_bind (keeps_modify fun e he => ⟨he.stream, he.operands, he.operators⟩) fun _ _ => ?_
  refine keeps_bind keeps_get fun e he => ?_
  refine keeps_bind (inside_reduceWhile _ he.operators) fun _ _ => keeps_modify fun e' he' => ?_
  exact ⟨he'.stream, he'.operands, fun o ho => he'.operators o (List.mem_of_mem_tail ho)⟩

theorem location_ofToken (t : Token) :
    (∀ l, Literal.ofToken t = .ok l → l.location = t.location) ∧
      ∀ d, Literal.ofToken t = .error d → d.location = t.location := by
  unfold Literal.ofToken
  split
  · exact ⟨nofun, fun d h => by cases h; rfl⟩
  · split
    · exact ⟨fun l h => by cases h; rfl, nofun⟩
    · exact ⟨nofun, fun d h => by cases h; rfl⟩

theorem inside_literal (ht : t ∈ ts) : Inside known ts (literal t) fun _ => True := by
  refine keeps_bind keeps_get fun _ _ => keeps_unless inside_fail ?_
  refine keeps_bind inside_advance fun _ _ => ?_
  split
  · next l hl => exact inside_pushOperand (.literal ⟨t, ht, ((location_ofToken t).1 l hl).symm⟩) false
  · next d hd => exact keeps_throw ⟨t, ht, ((location_ofToken t).2 d hd).symm⟩

theorem sits_of_lookup? (hs : symbols.Every (Identifier.Sits known ts)) (ht : t ∈ ts)
    (hk : t.kind = .identifier) {i : Identifier} (hi : symbols.lookup? t.text = some i) :
    i.toNode.Sits known ts := by
  obtain ⟨hname, hplace | hknown⟩ := hs.lookup? hi
  · exact .name (.inl hplace)
  · exact .name (.inr ⟨hknown, t, ht, hk, hname.symm⟩)

theorem inside_identifier (hs : symbols.Every (Identifier.Sits known ts)) (ht : t ∈ ts)
    (hk : t.kind = .identifier) : Inside known ts (identifier symbols t) fun _ => True := by
  refine keeps_bind keeps_get fun _ _ => keeps_unless inside_fail ?_
  split
  · next v hv =>
    have hsits : (Node.var v).Sits known ts := sits_of_lookup? hs ht hk hv
    exact keeps_bind inside_advance fun _ _ => inside_pushOperand hsits true
  · next f hf =>
    have hsits : (Node.reference f).Sits known ts := sits_of_lookup? hs ht hk hf
    exact keeps_bind inside_advance fun _ _ => inside_pushOperand hsits false
  · exact inside_fail
  · exact inside_fail

theorem location_resolve {o : Operator} {wantsOperand afterVariable nextIsVariable : Bool}
    {d : Diagnostic} (h : resolve t o wantsOperand afterVariable nextIsVariable = .error d) :
    d.location = t.location := by
  unfold resolve at h
  repeat' split at h
  all_goals first
    | cases h; rfl
    | cases h

theorem inside_operator (ht : t ∈ ts) : Inside known ts (operator symbols t) fun _ => True := by
  unfold operator
  split
  · exact inside_fail
  · refine keeps_bind inside_advance fun _ _ => keeps_bind keeps_get fun e _ => ?_
    dsimp only
    split
    · next d hd => exact keeps_throw ⟨t, ht, (location_resolve hd).symm⟩
    · refine keeps_bind (inside_pushOperator ⟨t, ht, rfl⟩) fun _ _ => keeps_modify fun e he => ?_
      exact ⟨he.stream, he.operands, he.operators⟩

theorem inside_step (hs : symbols.Every (Identifier.Sits known ts)) :
    Inside known ts (step symbols) fun _ => True := by
  have hgoes : ∀ {x : Build Unit}, Inside known ts x (fun _ => True) →
      Inside known ts (do x; return true) fun _ => True :=
    fun hx => keeps_bind hx fun _ _ => keeps_pure trivial
  refine keeps_bind keeps_get fun e he => ?_
  dsimp only
  split
  · exact keeps_pure trivial
  · exact keeps_pure trivial
  · split
    · exact keeps_pure trivial
    · split
      · exact hgoes (inside_openParenthesis he.current)
      · split
        · exact hgoes inside_closeParenthesis
        · exact hgoes inside_fail
  · exact hgoes (inside_literal he.current)
  · next hk => exact hgoes (inside_identifier hs he.current hk)
  · exact hgoes (inside_operator he.current)
  · exact inside_fail

theorem inside_steps (hs : symbols.Every (Identifier.Sits known ts)) (n : Nat) :
    Inside known ts (steps symbols n) fun _ => True := by
  induction n with
  | zero => exact inside_fail
  | succ n ih =>
    refine keeps_bind (inside_step hs) fun goesOn _ => ?_
    split
    · exact ih
    · exact keeps_pure trivial

theorem inside_finish : Inside known ts finish (Node.Sits known ts) := by
  refine keeps_bind keeps_get fun _ _ => keeps_unless inside_fail ?_
  refine keeps_bind keeps_get fun e he => ?_
  refine keeps_bind (inside_reduceWhile _ he.operators) fun _ _ => keeps_bind keeps_get fun e' he' => ?_
  split
  · exact inside_fail
  · next n rest hstack =>
    have hn := he'.operands
    rw [hstack] at hn
    obtain ⟨hn, hrest⟩ := List.forall_mem_cons.mp hn
    refine keeps_bind (keeps_set ⟨he'.stream, hrest, he'.operators⟩) fun _ _ => ?_
    split
    · exact keeps_pure hn
    · exact inside_fail

theorem inside_tree (hs : symbols.Every (Identifier.Sits known ts)) :
    Inside known ts (tree symbols) (Node.Sits known ts) :=
  keeps_bind keeps_get fun _ _ => keeps_bind (inside_steps hs _) fun _ _ => inside_finish

end Expression

end Offside
