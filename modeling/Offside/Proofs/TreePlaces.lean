import Offside.Proofs.FrameGrowth
import Offside.Proofs.TypeSoundness

/-!
# Where a node stands in a tree

What stands in front of a node are the statements before its own, in its block and in the blocks around it;
around it are the constructs whose blocks it is in. An operand stands where its node does: a parameter is
not in the block of its function, nor a condition in that of its loop.
-/

namespace Offside

set_option autoImplicit false

namespace Node

/-- The nodes that a node is made of, without its blocks. -/
def operands : Node → List Node
  | .function _ parameters _ => parameters
  | .unary _ operand _ => [operand]
  | .binary _ left right _ => [left, right]
  | .branch test _ _ _ => [test]
  | .whileLoop test _ _ => [test]
  | .forLoop init test increment _ _ => init.toList ++ test.toList ++ increment.toList
  | .rangeLoop range _ _ => [range]
  | _ => []

variable {n m k : Node} {ns front rest before around : List Node} {block : List Node × Scope}

theorem partsAll_eq (ns : List Node) : partsAll ns = ns.flatMap parts := by
  induction ns with
  | nil => rfl
  | cons n ns ih => rw [partsAll, ih, List.flatMap_cons]

theorem partsOption_eq (o : Option Node) : partsOption o = o.toList.flatMap parts := by
  cases o <;> simp [partsOption]

/-- The nodes of a tree are its root, those of the operands of the root, and those of its blocks. -/
theorem parts_eq (n : Node) :
    n.parts = n :: (n.operands.flatMap parts ++ n.blocks.flatMap fun block => block.2.parts) := by
  cases n with
  | function f parameters body =>
    cases body <;> simp [parts, operands, blocks, partsAll_eq, Scope.partsOption]
  | branch test consequence alternative place =>
    cases alternative <;> simp [parts, operands, blocks, Scope.partsOption]
  | forLoop init test increment body place =>
    simp [parts, operands, blocks, partsOption_eq]
  | _ => simp [parts, operands, blocks]

theorem mem_partsAll : m ∈ partsAll ns ↔ ∃ n ∈ ns, m ∈ n.parts := by
  rw [partsAll_eq, List.mem_flatMap]

theorem mem_parts : m ∈ n.parts ↔
    m = n ∨ (∃ k ∈ n.operands, m ∈ k.parts) ∨ ∃ block ∈ n.blocks, m ∈ block.2.parts := by
  rw [parts_eq]
  simp only [List.mem_cons, List.mem_append, List.mem_flatMap]

theorem sizeOf_operand (h : k ∈ n.operands) : sizeOf k < sizeOf n := by
  cases n with
  | function f parameters body =>
    have : sizeOf k < sizeOf parameters := List.sizeOf_lt_of_mem h
    simp
    omega
  | binary o left right place =>
    rcases List.mem_cons.mp h with rfl | h
    · simp
      omega
    · obtain rfl := List.mem_singleton.mp h
      simp
      omega
  | forLoop init test increment body place =>
    simp only [operands, List.mem_append, Option.mem_toList] at h
    rcases h with (rfl | rfl) | rfl <;>
    · simp
      omega
  | unary _ _ _ | branch _ _ _ _ | whileLoop _ _ _ | rangeLoop _ _ _ =>
    obtain rfl := List.mem_singleton.mp h
    simp
    omega
  | _ => cases h

theorem sizeOf_block (h : block ∈ n.blocks) : sizeOf block.2 < sizeOf n := by
  cases n with
  | function f parameters body =>
    cases body with
    | none => cases h
    | some body =>
      obtain rfl := List.mem_singleton.mp h
      simp
      omega
  | branch test consequence alternative place =>
    cases alternative with
    | none =>
      obtain rfl := List.mem_singleton.mp h
      simp
      omega
    | some alternative =>
      rcases List.mem_cons.mp h with rfl | h
      · simp
        omega
      · obtain rfl := List.mem_singleton.mp h
        simp
        omega
  | scope s =>
    obtain rfl := List.mem_singleton.mp h
    simp
  | whileLoop _ _ _ | forLoop _ _ _ _ _ | rangeLoop _ _ _ =>
    obtain rfl := List.mem_singleton.mp h
    simp
    omega
  | _ => cases h

theorem sizeOf_statement {s : Scope} (h : k ∈ s.statements) : sizeOf k < sizeOf s := by
  obtain ⟨statements, frame⟩ := s
  have : sizeOf k < sizeOf statements := List.sizeOf_lt_of_mem h
  simp
  omega

end Node

theorem Scope.mem_parts {s : Scope} {m : Node} : m ∈ s.parts ↔ ∃ k ∈ s.statements, m ∈ k.parts := by
  obtain ⟨statements, frame⟩ := s
  rw [Scope.parts, Node.mem_partsAll]

namespace Node

variable {n m k : Node}

/-- From a node outwards to all trees that it is a part of. -/
theorem parts_induction {P : Node → Prop} (self : P m)
    (operand : ∀ {n k : Node}, k ∈ n.operands → P k → P n)
    (statement : ∀ {n k : Node} {block : List Node × Scope}, block ∈ n.blocks →
      k ∈ block.2.statements → P k → P n) (n : Node) (h : m ∈ n.parts) : P n := by
  rcases mem_parts.mp h with rfl | ⟨k, hk, hm⟩ | ⟨block, hblock, hm⟩
  · exact self
  · have := sizeOf_operand hk
    exact operand hk (parts_induction self operand statement k hm)
  · obtain ⟨k, hk, hm⟩ := Scope.mem_parts.mp hm
    have := (sizeOf_statement hk).trans (sizeOf_block hblock)
    exact statement hblock hk (parts_induction self operand statement k hm)
termination_by sizeOf n

end Node

/-- `m` is `n` or an operand in it, outside of its blocks. -/
inductive Node.Holds : Node → Node → Prop where
  | self (n : Node) : Holds n n
  | operand {n k m : Node} : k ∈ n.operands → k.Holds m → n.Holds m

/--
Among the statements `ns` stands a node: behind the statements `before`, of the blocks around it, and in
blocks of the constructs `around`, the outermost first.
-/
inductive Shows : List Node → List Node → List Node → Node → Prop where
  | here {front rest : List Node} {n m : Node} : n.Holds m → Shows (front ++ n :: rest) front [] m
  | inner {front rest before around : List Node} {n k m : Node} {block : List Node × Scope} :
      n.Holds k → block ∈ k.blocks → Shows block.2.statements before around m →
      Shows (front ++ n :: rest) (front ++ before) (k :: around) m

namespace Node

variable {n m k : Node} {ns ms before around : List Node} {block : List Node × Scope}

theorem Holds.parts_subset (h : n.Holds m) : m.parts ⊆ n.parts := by
  induction h with
  | self => exact List.Subset.refl _
  | operand hk _ ih => exact fun i hi => mem_parts.mpr (.inr (.inl ⟨_, hk, ih hi⟩))

theorem self_mem_parts (n : Node) : n ∈ n.parts := mem_parts.mpr (.inl rfl)

/-- A node of a tree belongs to the root, or to a block in it. -/
theorem holds_or_shows (h : m ∈ n.parts) : n.Holds m ∨ ∃ k block before around,
    n.Holds k ∧ block ∈ k.blocks ∧ Shows block.2.statements before around m := by
  refine parts_induction (P := fun n => n.Holds m ∨ ∃ k block before around,
    n.Holds k ∧ block ∈ k.blocks ∧ Shows block.2.statements before around m) (.inl (.self m)) ?_ ?_ n h
  · rintro n k hk (hholds | ⟨l, block, before, around, hl, hshows⟩)
    · exact .inl (.operand hk hholds)
    · exact .inr ⟨l, block, before, around, .operand hk hl, hshows⟩
  · rintro n k block hblock hk hplace
    refine .inr ⟨n, block, ?_⟩
    obtain ⟨front, rest, hstatements⟩ := List.append_of_mem hk
    rw [hstatements]
    rcases hplace with hholds | ⟨l, block', before, around, hl, hin, hshows⟩
    · exact ⟨front, [], .self n, hblock, .here hholds⟩
    · exact ⟨_, _, .self n, hblock, .inner hl hin hshows⟩

/-- Every node of a tree stands somewhere in it. -/
theorem exists_shows (h : m ∈ partsAll ns) : ∃ before around, Shows ns before around m := by
  obtain ⟨n, hn, hm⟩ := mem_partsAll.mp h
  obtain ⟨front, rest, rfl⟩ := List.append_of_mem hn
  rcases holds_or_shows hm with hholds | ⟨k, block, before, around, hk, hblock, hshows⟩
  · exact ⟨front, [], .here hholds⟩
  · exact ⟨_, _, .inner hk hblock hshows⟩

/-- What stands in front of a node or around it is of the same tree. -/
theorem mem_parts_of_shows (h : Shows ns before around m) : ∀ n ∈ before ++ around, n ∈ partsAll ns := by
  induction h with
  | @here front rest n m _ =>
    intro k hk
    rw [List.append_nil] at hk
    exact mem_partsAll.mpr ⟨k, List.mem_append_left _ hk, k.self_mem_parts⟩
  | @inner front rest before around n k m block hholds hblock _ ih =>
    have hn : n ∈ front ++ n :: rest := List.mem_append_right _ List.mem_cons_self
    have hinner : ∀ i ∈ partsAll block.2.statements, i ∈ partsAll (front ++ n :: rest) := by
      intro i hi
      have hk : i ∈ k.parts :=
        mem_parts.mpr (.inr (.inr ⟨block, hblock, Scope.mem_parts.mpr (mem_partsAll.mp hi)⟩))
      exact mem_partsAll.mpr ⟨n, hn, hholds.parts_subset hk⟩
    intro i hi
    rcases List.mem_append.mp hi with hi | hi
    · rcases List.mem_append.mp hi with hi | hi
      · exact mem_partsAll.mpr ⟨i, List.mem_append_left _ hi, i.self_mem_parts⟩
      · exact hinner i (ih i (List.mem_append_left _ hi))
    · rcases List.mem_cons.mp hi with rfl | hi
      · exact mem_partsAll.mpr ⟨n, hn, hholds.parts_subset i.self_mem_parts⟩
      · exact hinner i (ih i (List.mem_append_right _ hi))

end Node

/-! ## Statements one after the other -/

namespace Shows

variable {n m : Node} {ns ms front rest before around : List Node}

theorem mem_or_mem (h : front ++ n :: rest = ns ++ ms) :
    (∃ more, ns = front ++ n :: more) ∨ ∃ front', front = ns ++ front' ∧ ms = front' ++ n :: rest := by
  rcases List.append_eq_append_iff.mp h with ⟨more, hns, hrest⟩ | ⟨front', hfront, hms⟩
  · cases more with
    | nil =>
      rw [List.append_nil] at hns
      exact .inr ⟨[], by rw [hns, List.append_nil], hrest.symm⟩
    | cons k more =>
      obtain ⟨rfl, -⟩ := List.cons.inj hrest
      exact .inl ⟨more, hns⟩
  · exact .inr ⟨front', hfront, hms⟩

theorem ne_nil (h : Shows ns before around m) : ns ≠ [] := by
  cases h <;> exact List.append_ne_nil_of_right_ne_nil _ (List.cons_ne_nil _ _)

/-- What stands among the second statements has the first ones in front of it. -/
theorem append_cases (h : Shows (ns ++ ms) before around m) : Shows ns before around m ∨
    ∃ before', before = ns ++ before' ∧ Shows ms before' around m := by
  generalize hall : ns ++ ms = all at h
  cases h with
  | @here front rest n _ hholds =>
    rcases mem_or_mem hall.symm with ⟨more, rfl⟩ | ⟨front', rfl, rfl⟩
    · exact .inl (.here hholds)
    · exact .inr ⟨front', rfl, .here hholds⟩
  | @inner front rest before' around' n k _ block hholds hblock hshows =>
    rcases mem_or_mem hall.symm with ⟨more, rfl⟩ | ⟨front', rfl, rfl⟩
    · exact .inl (.inner hholds hblock hshows)
    · exact .inr ⟨_, List.append_assoc .., .inner hholds hblock hshows⟩

theorem singleton_cases (h : Shows [n] before around m) : n.Holds m ∨
    ∃ k block around', n.Holds k ∧ block ∈ k.blocks ∧ around = k :: around' ∧
      Shows block.2.statements before around' m := by
  generalize hall : [n] = all at h
  have hn : ∀ {front rest : List Node} {l : Node}, [n] = front ++ l :: rest → front = [] ∧ l = n := by
    intro front rest l hl
    cases front with
    | nil => exact ⟨rfl, (List.cons.inj hl).1.symm⟩
    | cons => simp at hl
  cases h with
  | here hholds =>
    obtain ⟨rfl, rfl⟩ := hn hall
    exact .inl hholds
  | inner hholds hblock hshows =>
    obtain ⟨rfl, rfl⟩ := hn hall
    exact .inr ⟨_, _, _, hholds, hblock, rfl, hshows⟩

end Shows

end Offside
