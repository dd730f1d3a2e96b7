import Offside.Proofs.BlockReading

/-!
# Trees are well typed

Every node of a compiled tree has a type, at any depth: the operands of an operator have one type, that of a
condition is boolean, and a declaration has the type of its value.
-/

namespace Offside

set_option autoImplicit false

open Rules

mutual

/-- All nodes of a tree, that itself first. -/
def Node.parts : Node → List Node
  | .literal l => [.literal l]
  | .var v => [.var v]
  | .constant c => [.constant c]
  | .reference f => [.reference f]
  | .function f parameters body =>
    .function f parameters body :: (Node.partsAll parameters ++ Scope.partsOption body)
  | .unary o operand location => .unary o operand location :: operand.parts
  | .binary o left right location => .binary o left right location :: (left.parts ++ right.parts)
  | .scope s => .scope s :: s.parts
  | .branch condition consequence alternative location =>
    .branch condition consequence alternative location ::
      (condition.parts ++ consequence.parts ++ Scope.partsOption alternative)
  | .whileLoop condition body location =>
    .whileLoop condition body location :: (condition.parts ++ body.parts)
  | .forLoop init condition increment body location =>
    .forLoop init condition increment body location ::
      (Node.partsOption init ++ Node.partsOption condition ++ Node.partsOption increment ++
        body.parts)
  | .rangeLoop range body location =>
    .rangeLoop range body location :: (range.parts ++ body.parts)

def Node.partsAll : List Node → List Node
  | [] => []
  | n :: ns => n.parts ++ Node.partsAll ns

def Node.partsOption : Option Node → List Node
  | none => []
  | some n => n.parts

def Scope.parts : Scope → List Node
  | ⟨statements, _⟩ => Node.partsAll statements

def Scope.partsOption : Option Scope → List Node
  | none => []
  | some s => s.parts

end

/-- A node has a type, its operands have one type, and its condition is boolean. -/
def Node.Typed (n : Node) : Prop :=
  (∃ type, n.type? = .ok type) ∧
    match n with
    | .binary _ l r _ => ∃ type, l.type? = .ok type ∧ r.type? = .ok type
    | .branch c _ _ _ | .whileLoop c _ _ | .forLoop _ (some c) _ _ _ => c.type? = .ok .boolean
    | _ => True

theorem Node.type?_binary {o : Operator} {l r : Node} {place : Location} {type : DataType} :
    (Node.binary o l r place).type? = .ok type ↔
      ∃ operands, l.type? = .ok operands ∧ r.type? = .ok operands ∧
        type = if o.group = .relational then .boolean else operands := by
  rw [type?]
  cases hl : l.type? with
  | error d => simp [bind, Except.bind]
  | ok a =>
    cases hr : r.type? with
    | error d => simp [bind, Except.bind]
    | ok b =>
      by_cases hab : a = b
      · simp [bind, Except.bind, pure, Except.pure, hab, eq_comm]
      · have hba : b ≠ a := fun h => hab h.symm
        simp [bind, Except.bind, hab, hba, throw, throwThe, MonadExceptOf.throw]

theorem Node.typed_binary {o : Operator} {l r : Node} {place : Location} {type : DataType}
    (hl : l.type? = .ok type) (hr : r.type? = .ok type) : (Node.binary o l r place).Typed :=
  ⟨⟨_, type?_binary.mpr ⟨type, hl, hr, rfl⟩⟩, type, hl, hr⟩

theorem Node.IsExpression.typed {n : Node} (h : n.IsExpression) {type : DataType}
    (ht : n.type? = .ok type) : ∀ m ∈ n.parts, m.Typed := by
  induction h generalizing type with
  | literal | var | reference => exact List.forall_mem_singleton.mpr ⟨⟨type, ht⟩, trivial⟩
  | unary _ ih => exact List.forall_mem_cons.mpr ⟨⟨⟨type, ht⟩, trivial⟩, ih ht⟩
  | binary _ _ ihl ihr =>
    obtain ⟨operands, hl, hr, -⟩ := type?_binary.mp ht
    exact List.forall_mem_cons.mpr
      ⟨typed_binary hl hr, List.forall_mem_append.mpr ⟨ihl hl, ihr hr⟩⟩

theorem Identifier.type?_toNode (i : Identifier) : i.toNode.type? = .ok i.type := by
  cases i <;> rfl

theorem Identifier.typed_toNode (i : Identifier) : ∀ m ∈ i.toNode.parts, m.Typed := by
  cases i <;> exact List.forall_mem_singleton.mpr ⟨⟨_, rfl⟩, trivial⟩

theorem Declared.type_identifier (d : Declared) (name : String) (type : DataType)
    (location : Location) : (d.identifier name type location).type = type := by
  cases d <;> rfl

/-- The type that a declaration ends up with is that of its value. -/
theorem Node.type?_of_typeAs {n : Node} {declared type : DataType} {place : Location}
    (h : n.typeAs declared place = .ok type) : n.type? = .ok type := by
  unfold typeAs at h
  cases ht : n.type? with
  | error d => simp [ht, bind, Except.bind] at h
  | ok u =>
    simp only [ht, bind, Except.bind] at h
    split at h
    · split at h
      · cases h
      · cases h
        rfl
    · cases h
    · split at h
      · cases h
      · next hne =>
        cases h
        exact congrArg _ (Decidable.not_not.mp hne).symm

theorem Node.typed_assignment {i : Identifier} {value : Node} {place : Location}
    (hv : value.type? = .ok i.type) (hparts : ∀ m ∈ value.parts, m.Typed) :
    ∀ m ∈ (Node.binary .assignment i.toNode value place).parts, m.Typed :=
  List.forall_mem_cons.mpr ⟨typed_binary i.type?_toNode hv,
    List.forall_mem_append.mpr ⟨i.typed_toNode, hparts⟩⟩

namespace Rules

variable {symbols symbols' : SymbolTable} {ts : List Token}

theorem Declares.typed {d : Declared} {n : Node} {i : Identifier} (h : Declares symbols d ts n i) :
    ∀ m ∈ n.parts, m.Typed := by
  cases h with
  | value _ _ he htype =>
    have hv := Node.type?_of_typeAs htype
    refine Node.typed_assignment ?_ (he.isExpression.typed hv)
    rw [Declared.type_identifier]
    exact hv
  | bare => exact Identifier.typed_toNode _

theorem Parameters.typed {ns : List Node} (h : Parameters symbols ts ns symbols') :
    ∀ m ∈ Node.partsAll ns, m.Typed := by
  induction h with
  | last hd => exact List.forall_mem_append.mpr ⟨hd.typed, List.forall_mem_nil _⟩
  | more hd _ _ _ ih => exact List.forall_mem_append.mpr ⟨hd.typed, ih⟩

theorem Signature.typed {head : DeclarationHead} {ns : List Node} {returns : DataType}
    (h : Signature symbols ts head ns returns symbols') : ∀ m ∈ Node.partsAll ns, m.Typed := by
  cases h with
  | mk _ _ _ hps =>
    cases hps with
    | none => exact List.forall_mem_nil _
    | some hps => exact hps.typed

theorem OptionalExpression.typed {allowed : DataType → Prop} {o : Option Node}
    (h : OptionalExpression symbols allowed ts o) : ∀ m ∈ Node.partsOption o, m.Typed := by
  cases h with
  | none => exact List.forall_mem_nil _
  | some he ht => exact he.isExpression.typed ht

theorem OptionalExpression.type_eq {expected : DataType} {o : Option Node}
    (h : OptionalExpression symbols (· = expected) ts o) : ∀ n ∈ o, n.type? = .ok expected := by
  cases h with
  | none => nofun
  | some _ ht hexpected =>
    rintro _ ⟨⟩
    rw [ht, hexpected]

theorem LoopInit.typed {o : Option Node} (h : LoopInit symbols ts o symbols') :
    ∀ m ∈ Node.partsOption o, m.Typed := by
  cases h with
  | none => exact List.forall_mem_nil _
  | some hd => exact hd.typed

def Product.parts : Product → List Node
  | .statement n => n.parts
  | .lines _ ns => Node.partsAll ns
  | .block s | .body s => s.parts

end Rules

theorem Derives.typed {level : Nat} {before after : State} {product : Product}
    (h : Derives level before product after) : ∀ m ∈ product.parts, m.Typed := by
  induction h with
  | expression _ _ _ he ht => exact he.isExpression.typed ht
  | declaration _ hd => exact hd.typed
  | function _ hsig _ _ ih =>
    exact List.forall_mem_cons.mpr
      ⟨⟨⟨_, rfl⟩, trivial⟩, List.forall_mem_append.mpr ⟨hsig.typed, ih⟩⟩
  | branch _ _ he ht _ _ ih =>
    refine List.forall_mem_cons.mpr ⟨⟨⟨_, rfl⟩, ht⟩, ?_⟩
    have htest := he.isExpression.typed ht
    exact List.forall_mem_append.mpr
      ⟨List.forall_mem_append.mpr ⟨htest, ih⟩, List.forall_mem_nil _⟩
  | alternative _ _ he ht _ _ _ _ _ ih ih' =>
    refine List.forall_mem_cons.mpr ⟨⟨⟨_, rfl⟩, ht⟩, ?_⟩
    have htest := he.isExpression.typed ht
    exact List.forall_mem_append.mpr ⟨List.forall_mem_append.mpr ⟨htest, ih⟩, ih'⟩
  | whileLoop _ _ he ht _ ih =>
    refine List.forall_mem_cons.mpr ⟨⟨⟨_, rfl⟩, ht⟩, ?_⟩
    exact List.forall_mem_append.mpr ⟨he.isExpression.typed ht, ih⟩
  | threePartLoop _ _ hparts _ ih =>
    obtain ⟨hinit, -, htest, -, hincrement⟩ := hparts
    refine List.forall_mem_cons.mpr ⟨⟨⟨_, rfl⟩, ?_⟩, ?_⟩
    · have hboolean := htest.type_eq
      cases htest with
      | none => exact trivial
      | some => exact hboolean _ rfl
    · have hheader := List.forall_mem_append.mpr ⟨hinit.typed, htest.typed⟩
      have hheader := List.forall_mem_append.mpr ⟨hheader, hincrement.typed⟩
      exact List.forall_mem_append.mpr ⟨hheader, ih⟩
  | rangeLoop _ _ hrange _ _ ih =>
    obtain ⟨-, he, ht⟩ := hrange
    refine List.forall_mem_cons.mpr ⟨⟨⟨_, rfl⟩, trivial⟩, List.forall_mem_append.mpr ⟨?_, ih⟩⟩
    refine Node.typed_assignment ?_ (he.isExpression.typed ht)
    rw [Declared.type_identifier]
    exact ht
  | stop => exact List.forall_mem_nil _
  | here _ _ _ _ ih ih' => exact List.forall_mem_append.mpr ⟨ih, ih'⟩
  | deeper _ _ _ _ ih ih' =>
    exact List.forall_mem_append.mpr ⟨List.forall_mem_cons.mpr ⟨⟨⟨_, rfl⟩, trivial⟩, ih⟩, ih'⟩
  | block _ ih => exact ih
  | body _ _ _ ih => exact ih

/-- Trees are well typed: in particular, what gives an entity its value has the type of the entity. -/
theorem compile_typed {file source : String} {s : Scope} (h : compile file source = .ok s) :
    (∀ n ∈ s.parts, n.Typed) ∧
      ∀ (i : Identifier) (value : Node) (place : Location),
        .binary .assignment i.toNode value place ∈ s.parts → value.type? = .ok i.type := by
  obtain ⟨tokens, stop, symbols, next, -, -, hderives⟩ := compile_derives h
  have htyped : ∀ n ∈ s.parts, n.Typed := hderives.typed
  refine ⟨htyped, fun i value place hmem => ?_⟩
  obtain ⟨-, type, hleft, hright⟩ := htyped _ hmem
  rw [Identifier.type?_toNode] at hleft
  rw [hright, hleft]

/-- The condition of a loop inside of a function, and the default of its parameter. -/
theorem compile_typed_function :
    ∃ s, compile "" "f: int : (a: int = 1)\n    while a < 2\n        a + 3\n" = .ok s ∧
      s.parts.length = 11 ∧ (∀ n ∈ s.parts, n.Typed) ∧
      ∀ (i : Identifier) (value : Node) (place : Location),
        .binary .assignment i.toNode value place ∈ s.parts → value.type? = .ok i.type := by
  have hok : ((compile "" "f: int : (a: int = 1)\n    while a < 2\n        a + 3\n").map
      (·.parts.length)).toOption = some 11 := by decide +kernel
  cases hs : compile "" "f: int : (a: int = 1)\n    while a < 2\n        a + 3\n" with
  | error d => simp [hs, Except.map, Except.toOption] at hok
  | ok s =>
    simp only [hs, Except.map, Except.toOption, Option.some.injEq] at hok
    exact ⟨s, rfl, hok, compile_typed hs⟩

end Offside
