import Mathlib.Data.List.Forall2
import Mathlib.Data.Option.Basic
import Offside.Tree.Folding
import Offside.Tree.Typing
import Offside.Parser
import Offside.Declaration

/-!
# Trees that differ in their places

Two trees are alike if they differ in nothing but their places, each of which has moved in a way that is
allowed. What is computed from a tree does not look at places, except for the one that an error names.
-/

namespace Offside

set_option autoImplicit false

inductive Identifier.Like (moves : Location → Location → Prop) : Identifier → Identifier → Prop where
  | var {name : String} {type : DataType} {isConstant : Bool} {l m : Location} : moves l m →
      Like moves (.var ⟨name, type, isConstant, l⟩) (.var ⟨name, type, isConstant, m⟩)
  | constant {name : String} {type : DataType} {l m : Location} : moves l m →
      Like moves (.constant ⟨name, type, l⟩) (.constant ⟨name, type, m⟩)
  | function {id : FunctionId} {name : String} {returns : DataType} {l m : Location} : moves l m →
      Like moves (.function ⟨id, name, returns, l⟩) (.function ⟨id, name, returns, m⟩)

inductive Literal.Like (moves : Location → Location → Prop) : Literal → Literal → Prop where
  | mk {value : Value} {l m : Location} : moves l m → Like moves ⟨value, l⟩ ⟨value, m⟩

mutual

inductive Node.Like (moves : Location → Location → Prop) : Node → Node → Prop where
  | literal {a b : Literal} : Literal.Like moves a b → Node.Like moves (.literal a) (.literal b)
  | var {v w : Variable} : Identifier.Like moves (.var v) (.var w) →
      Node.Like moves (.var v) (.var w)
  | constant {c d : Constant} : Identifier.Like moves (.constant c) (.constant d) →
      Node.Like moves (.constant c) (.constant d)
  | function {f g : Function} {ns ms : List Node} {s t : Option Scope} :
      Identifier.Like moves (.function f) (.function g) → List.Forall₂ (Node.Like moves) ns ms →
      Option.Rel (Scope.Like moves) s t → Node.Like moves (.function f ns s) (.function g ms t)
  | reference {f g : Function} : Identifier.Like moves (.function f) (.function g) →
      Node.Like moves (.reference f) (.reference g)
  | unary {o : Operator} {n m : Node} {k l : Location} : Node.Like moves n m → moves k l →
      Node.Like moves (.unary o n k) (.unary o m l)
  | binary {o : Operator} {n m n' m' : Node} {k l : Location} : Node.Like moves n m →
      Node.Like moves n' m' → moves k l →
      Node.Like moves (.binary o n n' k) (.binary o m m' l)
  | scope {s t : Scope} : Scope.Like moves s t → Node.Like moves (.scope s) (.scope t)
  | branch {n m : Node} {s t : Scope} {s' t' : Option Scope} {k l : Location} :
      Node.Like moves n m → Scope.Like moves s t → Option.Rel (Scope.Like moves) s' t' → moves k l →
      Node.Like moves (.branch n s s' k) (.branch m t t' l)
  | whileLoop {n m : Node} {s t : Scope} {k l : Location} : Node.Like moves n m →
      Scope.Like moves s t → moves k l → Node.Like moves (.whileLoop n s k) (.whileLoop m t l)
  | forLoop {a b c a' b' c' : Option Node} {s t : Scope} {k l : Location} :
      Option.Rel (Node.Like moves) a a' → Option.Rel (Node.Like moves) b b' →
      Option.Rel (Node.Like moves) c c' → Scope.Like moves s t → moves k l →
      Node.Like moves (.forLoop a b c s k) (.forLoop a' b' c' t l)
  | rangeLoop {n m : Node} {s t : Scope} {k l : Location} : Node.Like moves n m →
      Scope.Like moves s t → moves k l → Node.Like moves (.rangeLoop n s k) (.rangeLoop m t l)

inductive Scope.Like (moves : Location → Location → Prop) : Scope → Scope → Prop where
  | mk {ns ms : List Node} {frame frame' : Frame} : List.Forall₂ (Node.Like moves) ns ms →
      List.Forall₂ (Identifier.Like moves) frame frame' → Scope.Like moves ⟨ns, frame⟩ ⟨ms, frame'⟩

end

theorem Identifier.eq_of_like {i j : Identifier} (h : i.Like Eq j) : i = j := by
  cases h with
  | var h | constant h | function h => rw [h]

mutual

theorem Node.eq_of_like {n m : Node} (h : n.Like Eq m) : n = m := by
  cases h with
  | literal h =>
    obtain ⟨h⟩ := h
    rw [h]
  | var h => exact congrArg Node.var (Identifier.var.inj (Identifier.eq_of_like h))
  | constant h => exact congrArg Node.constant (Identifier.constant.inj (Identifier.eq_of_like h))
  | function hf hns hs =>
    rw [Identifier.function.inj (Identifier.eq_of_like hf), Node.all_eq_of_like hns,
      Scope.option_eq_of_like hs]
  | reference h => exact congrArg Node.reference (Identifier.function.inj (Identifier.eq_of_like h))
  | unary h hl => rw [Node.eq_of_like h, hl]
  | binary h h' hl => rw [Node.eq_of_like h, Node.eq_of_like h', hl]
  | scope h => rw [Scope.eq_of_like h]
  | branch h hs hs' hl => rw [Node.eq_of_like h, Scope.eq_of_like hs, Scope.option_eq_of_like hs', hl]
  | whileLoop h hs hl => rw [Node.eq_of_like h, Scope.eq_of_like hs, hl]
  | forLoop ha hb hc hs hl =>
    rw [Node.option_eq_of_like ha, Node.option_eq_of_like hb, Node.option_eq_of_like hc,
      Scope.eq_of_like hs, hl]
  | rangeLoop h hs hl => rw [Node.eq_of_like h, Scope.eq_of_like hs, hl]

theorem Node.all_eq_of_like {ns ms : List Node} (h : List.Forall₂ (Node.Like Eq) ns ms) :
    ns = ms := by
  cases h with
  | nil => rfl
  | cons h hs => rw [Node.eq_of_like h, Node.all_eq_of_like hs]

theorem Node.option_eq_of_like {n m : Option Node} (h : Option.Rel (Node.Like Eq) n m) : n = m := by
  cases h with
  | none => rfl
  | some h => rw [Node.eq_of_like h]

theorem Scope.option_eq_of_like {s t : Option Scope} (h : Option.Rel (Scope.Like Eq) s t) :
    s = t := by
  cases h with
  | none => rfl
  | some h => rw [Scope.eq_of_like h]

theorem Scope.eq_of_like {s t : Scope} (h : s.Like Eq t) : s = t := by
  cases h with
  | mk hns hframe =>
    have hframe := hframe.imp fun _ _ => Identifier.eq_of_like
    rw [List.forall₂_eq_eq_eq] at hframe
    rw [Node.all_eq_of_like hns, hframe]

end

/-! ## Names -/

variable {moves : Location → Location → Prop}

namespace Identifier.Like

variable {i j : Identifier}

theorem refl (i : Identifier) : i.Like Eq i := by
  cases i with
  | var v => exact .var rfl
  | constant c => exact .constant rfl
  | function f => exact .function rfl

theorem name_eq (h : i.Like moves j) : j.name = i.name := by
  cases h <;> rfl

theorem location (h : i.Like moves j) : moves i.location j.location := by
  cases h with
  | var h | constant h | function h => exact h

theorem toNode (h : i.Like moves j) : i.toNode.Like moves j.toNode := by
  cases h with
  | var h => exact .var (.var h)
  | constant h => exact .constant (.constant h)
  | function h => exact .reference (.function h)

end Identifier.Like

theorem Declared.like (d : Declared) (name : String) (type : DataType) {l m : Location}
    (h : moves l m) : (d.identifier name type l).Like moves (d.identifier name type m) := by
  cases d <;> first | exact .var h | exact .constant h

def Frame.Like (moves : Location → Location → Prop) : Frame → Frame → Prop :=
  List.Forall₂ (Identifier.Like moves)

inductive SymbolTable.Like (moves : Location → Location → Prop) : SymbolTable → SymbolTable → Prop where
  | mk {frames frames' : List Frame} : List.Forall₂ (Frame.Like moves) frames frames' →
      Like moves ⟨frames⟩ ⟨frames'⟩

theorem Frame.Like.lookup? {frame frame' : Frame} (h : frame.Like moves frame') (name : String) :
    Option.Rel (Identifier.Like moves) (Frame.lookup? name frame) (Frame.lookup? name frame') := by
  induction h with
  | nil => exact .none
  | @cons i j _ _ hi _ ih =>
    unfold Frame.lookup? at ih ⊢
    rw [List.find?_cons, List.find?_cons, hi.name_eq]
    cases i.name == name with
    | true => exact .some hi
    | false => exact ih

namespace SymbolTable.Like

variable {s t : SymbolTable}

theorem eq_of_like (h : s.Like Eq t) : s = t := by
  obtain ⟨h⟩ := h
  have hframes := h.imp fun _ _ hframe => hframe.imp fun _ _ => Identifier.eq_of_like
  rw [List.forall₂_eq_eq_eq, List.forall₂_eq_eq_eq] at hframes
  rw [hframes]

theorem refl (t : SymbolTable) : t.Like Eq t :=
  ⟨List.forall₂_same.mpr fun _ _ => List.forall₂_same.mpr fun i _ => Identifier.Like.refl i⟩

theorem lookup? (h : s.Like moves t) (name : String) :
    Option.Rel (Identifier.Like moves) (s.lookup? name) (t.lookup? name) := by
  obtain ⟨h⟩ := h
  induction h with
  | nil => exact .none
  | @cons frame frame' _ _ hframe _ ih =>
    unfold SymbolTable.lookup? at ih ⊢
    rw [List.findSome?_cons, List.findSome?_cons]
    have hfound := hframe.lookup? name
    cases hi : Frame.lookup? name frame with
    | none =>
      rw [hi] at hfound
      cases hj : Frame.lookup? name frame' with
      | none => exact ih
      | some j =>
        rw [hj] at hfound
        cases hfound
    | some i =>
      rw [hi] at hfound
      cases hj : Frame.lookup? name frame' with
      | none =>
        rw [hj] at hfound
        cases hfound
      | some j =>
        rw [hj] at hfound
        exact hfound

theorem reopen (h : s.Like moves t) {frame frame' : Frame} (hframe : frame.Like moves frame') :
    (s.reopen frame).Like moves (t.reopen frame') := by
  obtain ⟨h⟩ := h
  exact ⟨.cons hframe h⟩

theorem openFrame (h : s.Like moves t) : s.openFrame.Like moves t.openFrame := h.reopen .nil

theorem close (h : s.Like moves t) :
    Frame.Like moves (s.close.1.getD []) (t.close.1.getD []) ∧ s.close.2.Like moves t.close.2 := by
  obtain ⟨h⟩ := h
  cases h with
  | nil => exact ⟨.nil, ⟨.nil⟩⟩
  | cons hframe h => exact ⟨hframe, ⟨h⟩⟩

theorem declare? (h : s.Like moves t) {i j : Identifier} (hi : i.Like moves j) :
    Option.Rel (SymbolTable.Like moves) (s.declare? i) (t.declare? j) := by
  obtain ⟨h⟩ := h
  cases h with
  | nil => exact .none
  | cons hframe h =>
    unfold SymbolTable.declare?
    have hfound := hframe.lookup? i.name
    rw [hi.name_eq]
    dsimp only
    generalize Frame.lookup? i.name _ = a at hfound
    generalize Frame.lookup? i.name _ = b at hfound
    cases hfound with
    | some => exact .none
    | none => exact .some ⟨.cons (List.rel_append hframe (.cons hi .nil)) h⟩

end SymbolTable.Like

/-! ## What is computed from a tree -/

inductive Diagnostic.Like (moves : Location → Location → Prop) : Diagnostic → Diagnostic → Prop where
  | mk {fault : Fault} {l m : Location} : moves l m → Like moves ⟨fault, l⟩ ⟨fault, m⟩

/-- Both end with an error, and these are alike, or neither does. -/
inductive Likewise (moves : Location → Location → Prop) {α β : Type} (related : α → β → Prop) :
    Except Diagnostic α → Except Diagnostic β → Prop where
  | ok {a : α} {b : β} : related a b → Likewise moves related (.ok a) (.ok b)
  | error {d e : Diagnostic} : d.Like moves e → Likewise moves related (.error d) (.error e)

theorem Likewise.bind {α β γ δ : Type} {related : α → β → Prop} {related' : γ → δ → Prop}
    {x : Except Diagnostic α} {y : Except Diagnostic β} {f : α → Except Diagnostic γ}
    {g : β → Except Diagnostic δ} (h : Likewise moves related x y)
    (hf : ∀ a b, related a b → Likewise moves related' (f a) (g b)) :
    Likewise moves related' (x >>= f) (y >>= g) := by
  cases h with
  | ok h => exact hf _ _ h
  | error h => exact .error h

namespace Node

variable {l l' : Location}

theorem Like.locationOr {n m : Node} (h : n.Like moves m) (hl : moves l l') :
    moves (n.locationOr l) (m.locationOr l') := by
  cases h with
  | literal h => cases h with | mk h => exact h
  | var h | constant h | function h | reference h => cases h with | _ h => exact h
  | unary _ h | binary _ _ h | branch _ _ _ h | whileLoop _ _ h | forLoop _ _ _ _ h
  | rangeLoop _ _ h => exact h
  | scope => exact hl

theorem type?_like {n m : Node} (h : n.Like moves m) : Likewise moves Eq n.type? m.type? := by
  cases h with
  | literal h => cases h with | mk => exact .ok rfl
  | var h | constant h | function h | reference h => cases h with | _ => exact .ok rfl
  | unary h =>
    have htype := type?_like h
    exact htype
  | binary h h' hl =>
    unfold Node.type?
    refine (type?_like h).bind fun a b hab => (type?_like h').bind fun c d hcd => ?_
    subst hab hcd
    by_cases hne : a = c
    · simp only [hne, ne_eq, not_true_eq_false, if_false]
      exact .ok rfl
    · simp only [hne, ne_eq, not_false_eq_true, if_true]
      exact .error ⟨hl⟩
  | scope | branch | whileLoop | forLoop | rangeLoop => exact .ok rfl

theorem typeAs_like {n m : Node} (h : n.Like moves m) (declared : DataType) (hl : moves l l') :
    Likewise moves Eq (n.typeAs declared l) (m.typeAs declared l') := by
  unfold typeAs
  refine (type?_like h).bind fun a b hab => ?_
  subst hab
  split
  · split
    · exact .error ⟨h.locationOr hl⟩
    · exact .ok rfl
  · exact .error ⟨hl⟩
  · split
    · exact .error ⟨h.locationOr hl⟩
    · exact .ok rfl

theorem checkBoolean_like {n m : Node} (h : n.Like moves m) (hl : moves l l') :
    Likewise moves Eq (n.checkBoolean l) (m.checkBoolean l') := by
  unfold checkBoolean
  refine (type?_like h).bind fun a b hab => ?_
  subst hab
  split
  · exact .error ⟨h.locationOr hl⟩
  · exact .ok rfl

theorem apply_like (a : Arithmetic) (hl : moves l l') {x x' y y' : Literal}
    (hx : x.Like moves x') (hy : y.Like moves y') :
    Likewise moves Eq (a.apply l x y) (a.apply l' x' y') := by
  obtain ⟨hx⟩ := hx
  obtain ⟨hy⟩ := hy
  unfold Arithmetic.apply Literal.type
  dsimp only
  split
  · exact .ok rfl
  · split
    · exact .ok rfl
    · exact .error ⟨hl⟩
  · exact .ok rfl
  · exact .ok rfl
  · exact .error ⟨hx⟩

theorem value?_like {n m : Node} (h : n.Like moves m) :
    Likewise moves (Option.Rel (Literal.Like moves)) n.value? m.value? := by
  cases h with
  | literal h => exact .ok (.some h)
  | @binary o _ _ _ _ _ _ h h' hl =>
    unfold value?
    refine (value?_like h).bind fun a b hab => ?_
    cases hab with
    | none => exact .ok .none
    | @some x x' hx =>
      refine (value?_like h').bind fun c d hcd => ?_
      cases hcd with
      | none => exact .ok .none
      | @some y y' hy =>
        have htypes : x'.type = x.type ∧ y'.type = y.type := by
          cases hx
          cases hy
          exact ⟨rfl, rfl⟩
        have hplace : moves x.location x'.location := by
          cases hx with | mk hx => exact hx
        dsimp only
        rw [htypes.1, htypes.2]
        by_cases hne : x.type = y.type
        · simp only [hne, ne_eq, not_true_eq_false, if_false]
          cases Arithmetic.ofOperator? o with
          | none => exact .ok .none
          | some a =>
            refine (apply_like a hl hx hy).bind fun v w hvw => ?_
            subst hvw
            exact .ok (.some ⟨hplace⟩)
        · simp only [hne, ne_eq, not_false_eq_true, if_true]
          exact .error ⟨hl⟩
  | _ => exact .ok .none

theorem fold_like {n m : Node} (h : n.Like moves m) :
    Likewise moves (Node.Like moves) n.fold m.fold := by
  refine (value?_like h).bind fun a b hab => ?_
  cases hab with
  | none => exact .ok h
  | some hl => exact .ok (.literal hl)

end Node

end Offside
