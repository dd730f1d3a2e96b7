import Offside.Proofs.FrameGrowth
import Offside.Proofs.TypeSoundness

/-!
# The types of what is declared

Every declaration checks on its own that its type has values: an inferred type replaces `auto`, and `void`
is refused. A loop over a range takes the type of its range as it is, so that its variable is the only one
that may be `void`.
-/

namespace Offside

set_option autoImplicit false

open Rules

/-- A variable or a constant is of a type that has values; a function may return none. -/
def Identifier.HasValues : Identifier → Prop
  | .var v => v.type ≠ .auto ∧ v.type ≠ .void
  | .constant c => c.type ≠ .auto ∧ c.type ≠ .void
  | .function f => f.returns ≠ .auto

/-- The loops over a range that have `v` as their variable. -/
inductive Node.LoopsOver (v : Variable) : Node → Prop where
  | mk {range : Node} {body : Scope} {place location : Location} : range.type? = .ok v.type →
      v.type ≠ .auto →
      LoopsOver v (.rangeLoop (.binary .assignment (.var v) range place) body location)

/-- What is shown in some nodes has values, but for the variables of loops: those of loops among the nodes,
and those that are known from outside. -/
structure ShowsValues (known : Identifier → Prop) (nodes : List Node) : Prop where
  shown : ∀ i : Identifier, i.toNode ∈ nodes →
    i.HasValues ∨ known i ∨ ∃ v, i = .var v ∧ ∃ loop ∈ nodes, loop.LoopsOver v
  blocks : ∀ n ∈ nodes, ∀ block ∈ n.blocks, ∀ i ∈ entries block.1 ++ block.2.frame,
    i.HasValues ∨ ∃ v, i = .var v ∧ n.LoopsOver v

/-- All that can be looked up has values or is known. -/
def Knows (known : Identifier → Prop) (blocks : List Frame) : Prop :=
  ∀ frame ∈ blocks, ∀ i ∈ frame, i.HasValues ∨ known i

theorem Identifier.HasValues.type_ne_auto {i : Identifier} (h : i.HasValues) : i.type ≠ .auto := by
  cases i with
  | var v => exact h.1
  | constant c => exact h.1
  | function f => exact h

variable {known : Identifier → Prop} {frame new : Frame} {outer blocks : List Frame}
  {symbols symbols' : SymbolTable} {ts : List Token}

theorem Knows.openFrame (h : Knows known blocks) : Knows known ([] :: blocks) :=
  List.forall_mem_cons.mpr ⟨List.forall_mem_nil _, h⟩

theorem Knows.append (h : Knows known (frame :: outer)) (hnew : ∀ i ∈ new, i.HasValues) :
    Knows known ((frame ++ new) :: outer) := by
  obtain ⟨hframe, houter⟩ := List.forall_mem_cons.mp h
  refine List.forall_mem_cons.mpr ⟨List.forall_mem_append.mpr ⟨hframe, ?_⟩, houter⟩
  exact fun i hi => .inl (hnew i hi)

namespace ShowsValues

variable {nodes more : List Node} {n : Node}

theorem nil : ShowsValues known [] := ⟨nofun, nofun⟩

theorem append (h : ShowsValues known nodes) (h' : ShowsValues known more) :
    ShowsValues known (nodes ++ more) where
  shown i hi := by
    rcases List.mem_append.mp hi with hi | hi
    · refine (h.shown i hi).imp_right (Or.imp_right ?_)
      rintro ⟨v, hv, loop, hloop, hover⟩
      exact ⟨v, hv, loop, List.mem_append_left _ hloop, hover⟩
    · refine (h'.shown i hi).imp_right (Or.imp_right ?_)
      rintro ⟨v, hv, loop, hloop, hover⟩
      exact ⟨v, hv, loop, List.mem_append_right _ hloop, hover⟩
  blocks := List.forall_mem_append.mpr ⟨h.blocks, h'.blocks⟩

/-- A construct around nodes that have values. -/
theorem cons (h : ShowsValues known nodes) (hn : ∀ i : Identifier, i.toNode = n → i.HasValues)
    (hblocks : ∀ block ∈ n.blocks, ∀ i ∈ entries block.1 ++ block.2.frame, i.HasValues) :
    ShowsValues known (n :: nodes) where
  shown i hi := by
    rcases List.mem_cons.mp hi with hi | hi
    · exact .inl (hn i hi)
    · refine (h.shown i hi).imp_right (Or.imp_right ?_)
      rintro ⟨v, hv, loop, hloop, hover⟩
      exact ⟨v, hv, loop, List.mem_cons_of_mem _ hloop, hover⟩
  blocks := List.forall_mem_cons.mpr
    ⟨fun block hblock i hi => .inl (hblocks block hblock i hi), h.blocks⟩

/-- A loop over a range makes its variable known to its block. -/
theorem loop {v : Variable} (h : ShowsValues (fun i => known i ∨ i = .var v) nodes)
    (hn : n.LoopsOver v)
    (hblocks : ∀ block ∈ n.blocks, ∀ i ∈ entries block.1 ++ block.2.frame, i.HasValues ∨ i = .var v) :
    ShowsValues known (n :: nodes) where
  shown i hi := by
    rcases List.mem_cons.mp hi with rfl | hi
    · cases i <;> cases hn
    · rcases h.shown i hi with hvalues | (hknown | rfl) | ⟨w, hw, loop, hloop, hover⟩
      · exact .inl hvalues
      · exact .inr (.inl hknown)
      · exact .inr (.inr ⟨v, rfl, n, List.mem_cons_self, hn⟩)
      · exact .inr (.inr ⟨w, hw, loop, List.mem_cons_of_mem _ hloop, hover⟩)
  blocks := by
    refine List.forall_mem_cons.mpr ⟨fun block hblock i hi => ?_, h.blocks⟩
    exact (hblocks block hblock i hi).imp_right fun hv => ⟨v, hv, hn⟩

end ShowsValues

/-! ## Expressions -/

theorem SymbolTable.mem_of_lookup? {name : String} {i : Identifier}
    (h : symbols.lookup? name = some i) : ∃ frame ∈ symbols.frames, i ∈ frame := by
  obtain ⟨frame, hframe, hfind⟩ := List.exists_of_findSome?_eq_some h
  exact ⟨frame, hframe, List.mem_of_find?_eq_some hfind⟩

theorem IsOperand.mem {t : Token} {n : Node} (h : IsOperand symbols t n) {i : Identifier}
    (hi : i.toNode ∈ n.parts) : ∃ frame ∈ symbols.frames, i ∈ frame := by
  cases h with
  | literal => cases i <;> simp [Identifier.toNode, Node.parts] at hi
  | var _ hl =>
    have hmem := SymbolTable.mem_of_lookup? hl
    cases i <;> simp [Identifier.toNode, Node.parts] at hi
    rwa [hi]
  | reference _ hl =>
    have hmem := SymbolTable.mem_of_lookup? hl
    cases i <;> simp [Identifier.toNode, Node.parts] at hi
    rwa [hi]

theorem Phrase.Grammatical.mem {q : Phrase} (h : q.Grammatical symbols) {i : Identifier}
    (hi : i.toNode ∈ q.node.parts) : ∃ frame ∈ symbols.frames, i ∈ frame := by
  have hne : ∀ {n : Node} {ns : List Node}, i.toNode ∈ n :: ns → i.toNode ≠ n → i.toNode ∈ ns :=
    fun hmem hne => (List.mem_cons.mp hmem).resolve_left hne
  induction h with
  | operand ho => exact ho.mem hi
  | enclosed _ _ _ ih => exact ih hi
  | before _ _ _ ih => exact ih (hne hi (by cases i <;> nofun))
  | behind ho => exact ho.mem (hne hi (by cases i <;> nofun))
  | between _ _ _ _ ihl ihr =>
    rcases List.mem_append.mp (hne hi (by cases i <;> nofun)) with hi | hi
    · exact ihl hi
    · exact ihr hi

theorem Node.IsExpression.blocks_parts {n : Node} (h : n.IsExpression) :
    ∀ m ∈ n.parts, m.blocks = [] := by
  induction h with
  | literal | var | reference => exact List.forall_mem_singleton.mpr rfl
  | unary _ ih => exact List.forall_mem_cons.mpr ⟨rfl, ih⟩
  | binary _ _ ihl ihr =>
    exact List.forall_mem_cons.mpr ⟨rfl, List.forall_mem_append.mpr ⟨ihl, ihr⟩⟩

theorem Expressed.mem {n : Node} (h : Expressed symbols ts n) {i : Identifier}
    (hi : i.toNode ∈ n.parts) : ∃ frame ∈ symbols.frames, i ∈ frame := by
  obtain ⟨q, hq, -, -, -, -, hfold⟩ := h
  rcases Node.fold_eq_ok hfold with rfl | ⟨l, -, rfl⟩
  · exact hq.mem hi
  · cases i <;> simp [Identifier.toNode, Node.parts] at hi

theorem Expressed.showsValues {n : Node} (h : Expressed symbols ts n)
    (hs : Knows known symbols.frames) : ShowsValues known n.parts where
  shown i hi := by
    obtain ⟨frame, hframe, hmem⟩ := h.mem hi
    exact (hs frame hframe i hmem).imp_right .inl
  blocks m hm block hblock := by
    rw [h.isExpression.blocks_parts m hm] at hblock
    cases hblock

theorem Node.IsExpression.type_ne_auto {n : Node} (h : n.IsExpression) {type : DataType}
    (hn : ∀ i : Identifier, i.toNode ∈ n.parts → i.type ≠ .auto) (ht : n.type? = .ok type) :
    type ≠ .auto := by
  induction h generalizing type with
  | literal l =>
    cases ht
    unfold Literal.type
    cases l.value <;> nofun
  | var v =>
    cases ht
    exact hn (.var v) List.mem_cons_self
  | reference f =>
    cases ht
    exact hn (.function f) List.mem_cons_self
  | unary _ ih => exact ih (fun i hi => hn i (List.mem_cons_of_mem _ hi)) ht
  | binary _ _ ihl =>
    obtain ⟨operands, hl, -, rfl⟩ := type?_binary.mp ht
    split
    · nofun
    · refine ihl (fun i hi => hn i ?_) hl
      exact List.mem_cons_of_mem _ (List.mem_append_left _ hi)

theorem Expressed.type_ne_auto {n : Node} (h : Expressed symbols ts n)
    (hknown : ∀ i, known i → i.type ≠ .auto) (hs : Knows known symbols.frames) {type : DataType}
    (ht : n.type? = .ok type) : type ≠ .auto := by
  refine h.isExpression.type_ne_auto (fun i hi => ?_) ht
  obtain ⟨frame, hframe, hmem⟩ := h.mem hi
  exact (hs frame hframe i hmem).elim Identifier.HasValues.type_ne_auto (hknown i)

/-! ## Declarations -/

theorem Node.typeAs_ne_void {n : Node} {declared type : DataType} {place : Location}
    (h : n.typeAs declared place = .ok type) : type ≠ .void := by
  unfold typeAs at h
  cases ht : n.type? with
  | error d => simp [ht, bind, Except.bind] at h
  | ok u =>
    simp only [ht, bind, Except.bind] at h
    split at h
    · split at h
      · cases h
      · next hne =>
        cases h
        exact hne
    · cases h
    · next hne =>
      split at h
      · cases h
      · cases h
        exact hne

theorem Declared.hasValues (d : Declared) (name : String) {type : DataType} (place : Location)
    (ha : type ≠ .auto) (hv : type ≠ .void) : (d.identifier name type place).HasValues := by
  cases d <;> exact ⟨ha, hv⟩

theorem Identifier.toNode_injective {i j : Identifier} (h : i.toNode = j.toNode) : i = j := by
  cases i <;> cases j <;> cases h <;> rfl

theorem ShowsValues.identifier {i : Identifier} (h : i.HasValues ∨ known i) :
    ShowsValues known i.toNode.parts := by
  have hparts : i.toNode.parts = [i.toNode] := by cases i <;> rfl
  rw [hparts]
  constructor
  · intro j hj
    obtain rfl := Identifier.toNode_injective (List.mem_singleton.mp hj)
    exact h.imp_right .inl
  · cases i <;> exact List.forall_mem_singleton.mpr (List.forall_mem_nil _)

namespace Rules

theorem Declares.hasValues {d : Declared} {n : Node} {i : Identifier} (h : Declares symbols d ts n i)
    (hknown : ∀ i, known i → i.type ≠ .auto) (hs : Knows known symbols.frames) :
    i.HasValues ∧ n.declared? = some i ∧ ShowsValues known n.parts := by
  cases h with
  | @value _ _ head _ declared _ type _ _ he htype =>
    have hauto := he.type_ne_auto hknown hs (Node.type?_of_typeAs htype)
    have hvalues := declared.hasValues head.name.text head.name.location hauto
      (Node.typeAs_ne_void htype)
    refine ⟨hvalues, by cases declared <;> rfl, ?_⟩
    have hparts := (ShowsValues.identifier (.inl hvalues)).append (he.showsValues hs)
    exact hparts.cons (fun j hj => by cases j <;> cases hj) (List.forall_mem_nil _)
  | @bare _ head _ ha hv =>
    have hvalues := Declared.variable.hasValues head.name.text head.name.location ha hv
    exact ⟨hvalues, rfl, .identifier (.inl hvalues)⟩

theorem Parameters.hasValues {ns : List Node} (h : Parameters symbols ts ns symbols')
    (hknown : ∀ i, known i → i.type ≠ .auto) (hframes : symbols = ⟨frame :: outer⟩)
    (hs : Knows known (frame :: outer)) :
    (∀ i ∈ entries ns, i.HasValues) ∧ symbols' = ⟨(frame ++ entries ns) :: outer⟩ ∧
      ShowsValues known (Node.partsAll ns) := by
  induction h generalizing frame with
  | last hd hi =>
    subst hframes
    obtain ⟨hvalues, hdeclared, hshows⟩ := hd.hasValues hknown hs
    obtain ⟨-, rfl⟩ := declare?_eq_some hi
    rw [Parse.entries_cons hdeclared]
    exact ⟨List.forall_mem_singleton.mpr hvalues, rfl, hshows.append .nil⟩
  | more hd hi _ _ ih =>
    subst hframes
    obtain ⟨hvalues, hdeclared, hshows⟩ := hd.hasValues hknown hs
    obtain ⟨-, rfl⟩ := declare?_eq_some hi
    obtain ⟨hmore, rfl, hshows'⟩ := ih rfl (hs.append (List.forall_mem_singleton.mpr hvalues))
    rw [Parse.entries_cons hdeclared]
    exact ⟨List.forall_mem_cons.mpr ⟨hvalues, hmore⟩, by simp, hshows.append hshows'⟩

theorem ParameterList.hasValues {ns : List Node}
    (h : ParameterList ⟨frame :: outer⟩ ts ns symbols') (hknown : ∀ i, known i → i.type ≠ .auto)
    (hs : Knows known (frame :: outer)) :
    (∀ i ∈ entries ns, i.HasValues) ∧ symbols' = ⟨(frame ++ entries ns) :: outer⟩ ∧
      ShowsValues known (Node.partsAll ns) := by
  cases h with
  | none => exact ⟨List.forall_mem_nil _, by simp [entries], .nil⟩
  | some hps => exact hps.hasValues hknown rfl hs

theorem LoopInit.hasValues {init : Option Node} (h : LoopInit ⟨frame :: outer⟩ ts init symbols')
    (hknown : ∀ i, known i → i.type ≠ .auto) (hs : Knows known (frame :: outer)) :
    (∀ i ∈ entries init.toList, i.HasValues) ∧
      symbols' = ⟨(frame ++ entries init.toList) :: outer⟩ ∧
      ShowsValues known (Node.partsOption init) := by
  cases h with
  | none => exact ⟨List.forall_mem_nil _, by simp [entries], .nil⟩
  | some hd _ hi =>
    obtain ⟨hvalues, hdeclared, hshows⟩ := hd.hasValues hknown hs
    obtain ⟨-, rfl⟩ := declare?_eq_some hi
    rw [Option.toList_some, Parse.entries_cons hdeclared]
    exact ⟨List.forall_mem_singleton.mpr hvalues, rfl, hshows⟩

theorem OptionalExpression.showsValues {allowed : DataType → Prop} {o : Option Node}
    (h : OptionalExpression symbols allowed ts o) (hs : Knows known symbols.frames) :
    ShowsValues known (Node.partsOption o) := by
  cases h with
  | none => exact .nil
  | some he => exact he.showsValues hs

theorem ResultType.ne_auto {declared type : DataType} (h : ResultType declared ts type) :
    type ≠ .auto := by
  cases h with
  | written _ _ _ hne => exact hne
  | implied =>
    split
    · nofun
    · assumption

end Rules

/-! ## Statements and blocks -/

theorem hasValues_of_blocks {n : Node} (h : n.blocks ≠ []) (i : Identifier) (hi : i.toNode = n) :
    i.HasValues := by
  subst hi
  cases i <;> exact absurd rfl h

/-- A block has the names of its header, and its own. -/
theorem hasValues_of_frame {header : List Node} {s : Scope} (hheader : ∀ i ∈ entries header, i.HasValues)
    (hnew : ∀ i ∈ new, i.HasValues) (hframe : s.frame = entries header ++ new) :
    ∀ i ∈ entries header ++ s.frame, i.HasValues := by
  rw [hframe]
  exact List.forall_mem_append.mpr ⟨hheader, List.forall_mem_append.mpr ⟨hheader, hnew⟩⟩

/-- In its range and its block, the variable of a loop is known. -/
theorem ShowsValues.rangeLoop {v : Variable} {range : Node} {s : Scope} {place location : Location}
    (htype : range.type? = .ok v.type) (hauto : v.type ≠ .auto)
    (hrange : ShowsValues (fun i => known i ∨ i = .var v) range.parts)
    (hbody : ShowsValues (fun i => known i ∨ i = .var v) s.parts) (hnew : ∀ i ∈ new, i.HasValues)
    (hframe : s.frame = .var v :: new) :
    ShowsValues known
      (Node.rangeLoop (.binary .assignment (.var v) range place) s location).parts := by
  have hvariable : ShowsValues (fun i => known i ∨ i = .var v) (Identifier.var v).toNode.parts :=
    .identifier (.inr (.inr rfl))
  have hheader : ShowsValues (fun i => known i ∨ i = .var v)
      (Node.binary .assignment (.var v) range place).parts :=
    (hvariable.append hrange).cons (fun i hi => by cases i <;> cases hi) (List.forall_mem_nil _)
  refine (hheader.append hbody).loop (.mk htype hauto) (List.forall_mem_singleton.mpr ?_)
  rw [hframe]
  refine List.forall_mem_cons.mpr ⟨.inr rfl, List.forall_mem_cons.mpr ⟨.inr rfl, ?_⟩⟩
  exact fun i hi => .inl (hnew i hi)

/-- Besides the names that are there, a block has only names that have values. -/
theorem Derives.hasValues {level : Nat} {before after : State} {product : Product}
    (h : Derives level before product after) {known : Identifier → Prop}
    (hknown : ∀ i, known i → i.type ≠ .auto) {frame : Frame} {outer : List Frame}
    (hframes : before.symbols = ⟨frame :: outer⟩) (hs : Knows known (frame :: outer)) :
    ShowsValues known product.parts ∧
      ∃ new, (∀ i ∈ new, i.HasValues) ∧ product.Leaves outer (frame ++ new) after.symbols := by
  have hnone : ∀ i ∈ entries [], i.HasValues := List.forall_mem_nil _
  have hsame : ∀ {n : Node} {symbols : SymbolTable} {frame : Frame} {outer : List Frame},
      symbols = ⟨frame :: outer⟩ → ∃ new, (∀ i ∈ new, i.HasValues) ∧
        (Product.statement n).Leaves outer (frame ++ new) symbols := fun h =>
    ⟨[], List.forall_mem_nil _, by rwa [List.append_nil]⟩
  induction h generalizing known frame outer with
  | expression _ _ _ he =>
    obtain rfl : _ = _ := hframes
    exact ⟨he.showsValues hs, hsame rfl⟩
  | declaration _ hd hi =>
    obtain rfl : _ = _ := hframes
    obtain ⟨hvalues, -, hshows⟩ := hd.hasValues hknown hs
    obtain ⟨-, rfl⟩ := declare?_eq_some hi
    exact ⟨hshows, [_], List.forall_mem_singleton.mpr hvalues, rfl⟩
  | @function _ _ _ _ _ _ _ next head _ returns _ _ _ hsig hi _ ih =>
    obtain rfl : _ = _ := hframes
    obtain ⟨-, -, -, hps, -, hresult⟩ := hsig
    obtain ⟨hheader, rfl, hshows⟩ := hps.hasValues hknown hs.openFrame
    obtain ⟨-, rfl⟩ := declare?_eq_some hi
    have hfunction : ∀ i ∈ [Identifier.function ⟨next, head.name.text, returns, head.name.location⟩],
        i.HasValues := List.forall_mem_singleton.mpr hresult.ne_auto
    obtain ⟨hbody, new, hnew, hafter, hframe⟩ :=
      ih hknown rfl ((hs.append hfunction).openFrame.append hheader)
    refine ⟨(hshows.append hbody).cons (hasValues_of_blocks nofun) ?_, _, hfunction, hafter⟩
    exact List.forall_mem_singleton.mpr (hasValues_of_frame hheader hnew hframe)
  | branch _ _ he _ _ _ ih =>
    obtain rfl : _ = _ := hframes
    obtain ⟨hbody, new, hnew, hafter, hframe⟩ := ih hknown rfl hs.openFrame
    have hparts := ((he.showsValues hs).append hbody).append .nil
    refine ⟨hparts.cons (hasValues_of_blocks nofun) ?_, hsame hafter⟩
    exact List.forall_mem_singleton.mpr (hasValues_of_frame hnone hnew hframe)
  | alternative _ _ he _ _ _ _ _ _ ih ih' =>
    obtain rfl : _ = _ := hframes
    obtain ⟨hbody, new, hnew, hbetween, hframe⟩ := ih hknown rfl hs.openFrame
    obtain rfl : _ = _ := hbetween
    obtain ⟨hbody', new', hnew', hafter, hframe'⟩ := ih' hknown rfl hs.openFrame
    have hparts := ((he.showsValues hs).append hbody).append hbody'
    refine ⟨hparts.cons (hasValues_of_blocks nofun) ?_, hsame hafter⟩
    exact List.forall_mem_cons.mpr ⟨hasValues_of_frame hnone hnew hframe,
      List.forall_mem_singleton.mpr (hasValues_of_frame hnone hnew' hframe')⟩
  | whileLoop _ _ he _ _ ih =>
    obtain rfl : _ = _ := hframes
    obtain ⟨hbody, new, hnew, hafter, hframe⟩ := ih hknown rfl hs.openFrame
    have hparts := (he.showsValues hs).append hbody
    refine ⟨hparts.cons (hasValues_of_blocks nofun) ?_, hsame hafter⟩
    exact List.forall_mem_singleton.mpr (hasValues_of_frame hnone hnew hframe)
  | threePartLoop _ _ hparts _ ih =>
    obtain rfl : _ = _ := hframes
    obtain ⟨hinit, -, htest, -, hincrement⟩ := hparts
    obtain ⟨hheader, rfl, hshows⟩ := hinit.hasValues hknown hs.openFrame
    have hs' := hs.openFrame.append hheader
    obtain ⟨hbody, new, hnew, hafter, hframe⟩ := ih hknown rfl hs'
    have hparts := ((hshows.append (htest.showsValues hs')).append
      (hincrement.showsValues hs')).append hbody
    refine ⟨hparts.cons (hasValues_of_blocks nofun) ?_, hsame hafter⟩
    exact List.forall_mem_singleton.mpr (hasValues_of_frame hheader hnew hframe)
  | @rangeLoop _ _ _ _ _ _ _ _ _ _ place _ _ _ _ hrange hi _ ih =>
    obtain rfl : _ = _ := hframes
    obtain @⟨_, _, name, _, _, type, -, he, htype⟩ := hrange
    obtain ⟨-, rfl⟩ := declare?_eq_some hi
    have hauto := he.type_ne_auto hknown hs htype
    let v : Variable := ⟨name, type, false, place⟩
    have hknown' : ∀ i, known i ∨ i = .var v → i.type ≠ .auto := by
      rintro i (hi | rfl)
      · exact hknown i hi
      · exact hauto
    have hs' : Knows (fun i => known i ∨ i = .var v) (frame :: outer) :=
      fun f hf i hi => (hs f hf i hi).imp_right .inl
    obtain ⟨hbody, new, hnew, hafter, hframe⟩ := ih hknown' rfl
      (List.forall_mem_cons.mpr ⟨List.forall_mem_singleton.mpr (.inr (.inr rfl)), hs'⟩)
    exact ⟨.rangeLoop htype hauto (he.showsValues hs') hbody hnew hframe, hsame hafter⟩
  | stop =>
    obtain rfl : _ = _ := hframes
    exact ⟨.nil, [], List.forall_mem_nil _, by rw [List.append_nil]; rfl⟩
  | here _ _ _ _ ih ih' =>
    obtain ⟨hfirst, new, hnew, hbetween⟩ := ih hknown hframes hs
    obtain ⟨hmore, new', hnew', hafter⟩ := ih' hknown hbetween (hs.append hnew)
    rw [List.append_assoc] at hafter
    exact ⟨hfirst.append hmore, new ++ new', List.forall_mem_append.mpr ⟨hnew, hnew'⟩, hafter⟩
  | deeper _ _ _ _ ih ih' =>
    obtain rfl : _ = _ := hframes
    obtain ⟨hblock, new, hnew, hbetween, hframe⟩ := ih hknown rfl hs.openFrame
    obtain ⟨hmore, new', hnew', hafter⟩ := ih' hknown hbetween hs
    have hscope : ShowsValues known (Node.scope _).parts := hblock.cons (hasValues_of_blocks nofun)
      (List.forall_mem_singleton.mpr (hasValues_of_frame hnone hnew hframe))
    exact ⟨hscope.append hmore, new', hnew', hafter⟩
  | block _ ih =>
    obtain ⟨hlines, new, hnew, hafter⟩ := ih hknown hframes hs
    obtain rfl : _ = _ := hafter
    exact ⟨hlines, new, hnew, rfl, rfl⟩
  | body _ _ _ ih => exact ih hknown hframes hs

/--
The variables and constants of a tree have types that have values, wherever they are declared: in frames, as
parameters, in assignments and in the headers of loops. The one exception is the variable of a loop over a
range, which has the type of the range.
-/
theorem compile_hasValues {file source : String} {s : Scope} (h : compile file source = .ok s) :
    (∀ i ∈ s.frame, i.HasValues) ∧
      (∀ n ∈ s.parts, ∀ block ∈ n.blocks, ∀ i ∈ entries block.1 ++ block.2.frame,
        i.HasValues ∨ ∃ v, i = .var v ∧ n.LoopsOver v) ∧
      ∀ i : Identifier, i.toNode ∈ s.parts →
        i.HasValues ∨ ∃ v, i = .var v ∧ ∃ loop ∈ s.parts, loop.LoopsOver v := by
  obtain ⟨tokens, stop, symbols, next, -, -, hderives⟩ := compile_derives h
  have hempty : Knows (fun _ => False) [[]] := List.forall_mem_singleton.mpr (List.forall_mem_nil _)
  obtain ⟨hshows, new, hnew, -, hframe⟩ := hderives.hasValues nofun rfl hempty
  refine ⟨?_, hshows.blocks, fun i hi => (hshows.shown i hi).imp_right (·.resolve_left id)⟩
  rw [hframe]
  exact hnew

/-- A constant and a loop over a range of integers, in a function with a parameter. -/
theorem compile_hasValues_loop :
    ∃ s, compile "" "f :: (a: int)\n    for b: a\n        c :: b\n" = .ok s ∧
      (s.parts.flatMap Node.blocks).map (fun block => (entries block.1).map Identifier.type) =
        [[.int], [.int]] ∧
      (∀ i ∈ s.frame, i.HasValues) ∧
      (∀ n ∈ s.parts, ∀ block ∈ n.blocks, ∀ i ∈ entries block.1 ++ block.2.frame,
        i.HasValues ∨ ∃ v, i = .var v ∧ n.LoopsOver v) ∧
      ∀ i : Identifier, i.toNode ∈ s.parts →
        i.HasValues ∨ ∃ v, i = .var v ∧ ∃ loop ∈ s.parts, loop.LoopsOver v := by
  have hok : ((compile "" "f :: (a: int)\n    for b: a\n        c :: b\n").map fun s =>
      (s.parts.flatMap Node.blocks).map fun block =>
        (entries block.1).map Identifier.type).toOption = some [[.int], [.int]] := by
    decide +kernel
  cases hs : compile "" "f :: (a: int)\n    for b: a\n        c :: b\n" with
  | error d => simp [hs, Except.map, Except.toOption] at hok
  | ok s =>
    simp only [hs, Except.map, Except.toOption, Option.some.injEq] at hok
    exact ⟨s, rfl, hok, compile_hasValues hs⟩

/-- The variable of a loop over a function without a result is `void`. -/
theorem void_variable_of_rangeLoop :
    ∃ s, compile "test.ic" "f :: ()\n    x := 1\nfor f\n    y := 2\n" = .ok s ∧
      ∃ n ∈ s.parts, ∃ block ∈ n.blocks,
        Identifier.var ⟨"it", .void, false, ⟨"test.ic", 3, 1⟩⟩ ∈ block.2.frame := by
  have hok : ((compile "test.ic" "f :: ()\n    x := 1\nfor f\n    y := 2\n").map fun s =>
      (s.parts.flatMap Node.blocks).any fun block =>
        Identifier.var ⟨"it", .void, false, ⟨"test.ic", 3, 1⟩⟩ ∈ block.2.frame).toOption =
      some true := by
    decide +kernel
  cases hs : compile "test.ic" "f :: ()\n    x := 1\nfor f\n    y := 2\n" with
  | error d => simp [hs, Except.map, Except.toOption] at hok
  | ok s =>
    simp only [hs, Except.map, Except.toOption, Option.some.injEq, List.any_eq_true,
      List.mem_flatMap, decide_eq_true_eq] at hok
    obtain ⟨block, ⟨n, hn, hblock⟩, hmem⟩ := hok
    exact ⟨s, rfl, n, hn, block, hblock, hmem⟩

end Offside
