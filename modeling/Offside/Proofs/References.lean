import Offside.Proofs.DeclaredTypes
import Offside.Proofs.TreePlaces
import Offside.Tree.Reference

/-!
# What references lead to

A reference leads to a function that is declared before it, in its block or in one around it, or in whose body
it stands. When the tree is complete, so is the body of every function in it.
-/

namespace Offside

set_option autoImplicit false

open Rules

def Node.functionId? : Node → Option FunctionId
  | .function f _ _ => some f.id
  | _ => none

/-- The node declares `f`, with a body that is not empty. -/
def Node.Defines (f : Function) (n : Node) : Prop :=
  ∃ parameters body, n = .function f parameters (some body) ∧ body.statements ≠ []

/-- All functions that can be looked up are known. -/
def KnowsFunctions (known : Function → Prop) (blocks : List Frame) : Prop :=
  ∀ frame ∈ blocks, ∀ f, .function f ∈ frame → known f

/-- A line without a block and without a function, all of whose references are to known functions. -/
structure Node.Plain (known : Function → Prop) (n : Node) : Prop where
  references : ∀ f, .reference f ∈ n.parts → known f
  line : ∀ m ∈ n.parts, m.blocks = [] ∧ m.functionId? = none

/-- Each reference among the statements is to a known function, or to one that it can see. -/
def Refers (known : Function → Prop) (ns : List Node) : Prop :=
  ∀ before around f, Shows ns before around (.reference f) →
    known f ∨ ∃ n ∈ before ++ around, n.Defines f

variable {known : Function → Prop} {frame new : Frame} {outer blocks : List Frame}
  {symbols symbols' : SymbolTable} {ts : List Token} {n : Node} {ns ms : List Node}

namespace KnowsFunctions

theorem openFrame (h : KnowsFunctions known blocks) : KnowsFunctions known ([] :: blocks) :=
  List.forall_mem_cons.mpr ⟨fun _ hf => absurd hf List.not_mem_nil, h⟩

theorem append (h : KnowsFunctions known (frame :: outer))
    (hnew : ∀ f, .function f ∈ new → known f) : KnowsFunctions known ((frame ++ new) :: outer) := by
  obtain ⟨hframe, houter⟩ := List.forall_mem_cons.mp h
  refine List.forall_mem_cons.mpr ⟨fun f hf => ?_, houter⟩
  exact (List.mem_append.mp hf).elim (hframe f) (hnew f)

theorem imp {known' : Function → Prop} (h : KnowsFunctions known blocks)
    (hk : ∀ f, known f → known' f) : KnowsFunctions known' blocks :=
  fun frame hframe f hf => hk f (h frame hframe f hf)

end KnowsFunctions

/-! ## Lines -/

theorem Node.IsExpression.functionId?_parts (h : n.IsExpression) :
    ∀ m ∈ n.parts, m.functionId? = none := by
  induction h with
  | literal | var | reference => exact List.forall_mem_singleton.mpr rfl
  | unary _ ih => exact List.forall_mem_cons.mpr ⟨rfl, ih⟩
  | binary _ _ ihl ihr =>
    exact List.forall_mem_cons.mpr ⟨rfl, List.forall_mem_append.mpr ⟨ihl, ihr⟩⟩

theorem Expressed.plain (h : Expressed symbols ts n) (hs : KnowsFunctions known symbols.frames) :
    n.Plain known where
  references f hf := by
    obtain ⟨frame, hframe, hmem⟩ := h.mem (i := .function f) hf
    exact hs frame hframe f hmem
  line m hm := ⟨h.isExpression.blocks_parts m hm, h.isExpression.functionId?_parts m hm⟩

theorem Node.Plain.binary {o : Operator} {l r : Node} {place : Location} (hl : l.Plain known)
    (hr : r.Plain known) : (Node.binary o l r place).Plain known where
  references f hf := by
    rcases List.mem_append.mp ((List.mem_cons.mp hf).resolve_left fun h => by cases h) with hf | hf
    · exact hl.references f hf
    · exact hr.references f hf
  line := by
    refine List.forall_mem_cons.mpr ⟨⟨?_, rfl⟩, List.forall_mem_append.mpr ⟨hl.line, hr.line⟩⟩
    unfold Node.blocks
    rfl

/-- A name that is not that of a function. -/
theorem Declared.plain (d : Declared) (name : String) (type : DataType) (place : Location) :
    (d.identifier name type place).toNode.Plain known ∧
      ∀ f, d.identifier name type place ≠ .function f := by
  cases d <;>
  · refine ⟨⟨fun f hf => ?_, List.forall_mem_singleton.mpr ⟨rfl, rfl⟩⟩, fun f h => ?_⟩
    · cases List.mem_singleton.mp hf
    · cases h

namespace Rules

theorem Declares.plain {d : Declared} {i : Identifier} (h : Declares symbols d ts n i)
    (hs : KnowsFunctions known symbols.frames) : n.Plain known ∧ ∀ f, i ≠ .function f := by
  cases h with
  | value _ _ he =>
    obtain ⟨hleft, hfunction⟩ := Declared.plain ..
    exact ⟨hleft.binary (he.plain hs), hfunction⟩
  | bare => exact Declared.plain ..

/-- What is declared on a line is no function. -/
theorem declare?_plain {i : Identifier} (h : SymbolTable.declare? i ⟨frame :: outer⟩ = some symbols')
    (hi : ∀ f, i ≠ .function f) :
    symbols' = ⟨(frame ++ [i]) :: outer⟩ ∧ ∀ f, .function f ∉ [i] :=
  ⟨(declare?_eq_some h).2, fun f hf => hi f (List.mem_singleton.mp hf).symm⟩

theorem Parameters.plain (h : Parameters symbols ts ns symbols') (hframes : symbols = ⟨frame :: outer⟩)
    (hs : KnowsFunctions known (frame :: outer)) :
    (∀ n ∈ ns, n.Plain known) ∧
      ∃ new, symbols' = ⟨(frame ++ new) :: outer⟩ ∧ ∀ f, .function f ∉ new := by
  induction h generalizing frame with
  | last hd hi =>
    subst hframes
    obtain ⟨hplain, hfunction⟩ := hd.plain hs
    exact ⟨List.forall_mem_singleton.mpr hplain, _, declare?_plain hi hfunction⟩
  | more hd hi _ _ ih =>
    subst hframes
    obtain ⟨hplain, hfunction⟩ := hd.plain hs
    obtain ⟨rfl, hnone⟩ := declare?_plain hi hfunction
    obtain ⟨hmore, new, rfl, hnew⟩ := ih rfl (hs.append fun f hf => absurd hf (hnone f))
    refine ⟨List.forall_mem_cons.mpr ⟨hplain, hmore⟩, _, by rw [List.append_assoc], fun f hf => ?_⟩
    exact (List.mem_append.mp hf).elim (hnone f) (hnew f)

theorem ParameterList.plain (h : ParameterList ⟨frame :: outer⟩ ts ns symbols')
    (hs : KnowsFunctions known (frame :: outer)) :
    (∀ n ∈ ns, n.Plain known) ∧
      ∃ new, symbols' = ⟨(frame ++ new) :: outer⟩ ∧ ∀ f, .function f ∉ new := by
  cases h with
  | none => exact ⟨List.forall_mem_nil _, [], by rw [List.append_nil], fun _ => List.not_mem_nil⟩
  | some hps => exact hps.plain rfl hs

theorem LoopInit.plain {init : Option Node} (h : LoopInit ⟨frame :: outer⟩ ts init symbols')
    (hs : KnowsFunctions known (frame :: outer)) :
    (∀ n ∈ init.toList, n.Plain known) ∧
      ∃ new, symbols' = ⟨(frame ++ new) :: outer⟩ ∧ ∀ f, .function f ∉ new := by
  cases h with
  | none => exact ⟨List.forall_mem_nil _, [], by rw [List.append_nil], fun _ => List.not_mem_nil⟩
  | some hd _ hi =>
    obtain ⟨hplain, hfunction⟩ := hd.plain hs
    exact ⟨List.forall_mem_singleton.mpr hplain, _, declare?_plain hi hfunction⟩

theorem OptionalExpression.plain {allowed : DataType → Prop} {o : Option Node}
    (h : OptionalExpression symbols allowed ts o) (hs : KnowsFunctions known symbols.frames) :
    ∀ n ∈ o.toList, n.Plain known := by
  cases h with
  | none => exact List.forall_mem_nil _
  | some he => exact List.forall_mem_singleton.mpr (he.plain hs)

end Rules

/-! ## Statements -/

namespace Refers

theorem nil : Refers known [] := by
  intro before around f h
  exact absurd rfl h.ne_nil

theorem append (h : Refers known ns)
    (h' : Refers (fun f => known f ∨ ∃ n ∈ ns, n.Defines f) ms) : Refers known (ns ++ ms) := by
  intro before around f hf
  rcases hf.append_cases with hf | ⟨before', rfl, hf'⟩
  · exact h before around f hf
  · rcases h' before' around f hf' with (hknown | ⟨n, hn, hdefines⟩) | ⟨n, hn, hdefines⟩
    · exact .inl hknown
    · exact .inr ⟨n, List.mem_append_left _ (List.mem_append_left _ hn), hdefines⟩
    · refine .inr ⟨n, ?_, hdefines⟩
      rw [List.append_assoc]
      exact List.mem_append_right _ hn

theorem imp {known' : Function → Prop} (h : Refers known ns) (hk : ∀ f, known f → known' f) :
    Refers known' ns :=
  fun before around f hf => (h before around f hf).imp_left (hk f)

/-- A statement sees what its line does, and its blocks see the function that it declares. -/
theorem statement (hoperands : ∀ k ∈ n.operands, k.Plain known) (hn : n.blocks ≠ [])
    (hblocks : ∀ block ∈ n.blocks, Refers (fun f => known f ∨ n.Defines f) block.2.statements) :
    Refers known [n] := by
  intro before around f hf
  rcases hf.singleton_cases with hholds | ⟨k, block, around', hholds, hblock, rfl, hshows⟩
  · cases hholds with
    | self => exact absurd rfl hn
    | operand hk hholds =>
      exact .inl ((hoperands _ hk).references f (hholds.parts_subset (Node.self_mem_parts _)))
  · cases hholds with
    | self =>
      rcases hblocks block hblock before around' f hshows with (hknown | hdefines) | ⟨m, hm, hdefines⟩
      · exact .inl hknown
      · exact .inr ⟨n, List.mem_append_right _ List.mem_cons_self, hdefines⟩
      · refine .inr ⟨m, ?_, hdefines⟩
        rcases List.mem_append.mp hm with hm | hm
        · exact List.mem_append_left _ hm
        · exact List.mem_append_right _ (List.mem_cons_of_mem _ hm)
    | operand hl hholds =>
      have hline := (hoperands _ hl).line k (hholds.parts_subset (Node.self_mem_parts k))
      rw [hline.1] at hblock
      cases hblock

/-- A statement that is but a line. -/
theorem line (h : n.Plain known) : Refers known [n] := by
  intro before around f hf
  rcases hf.singleton_cases with hholds | ⟨k, block, around', hholds, hblock, -, -⟩
  · exact .inl (h.references f (hholds.parts_subset (Node.self_mem_parts _)))
  · rw [(h.line k (hholds.parts_subset (Node.self_mem_parts k))).1] at hblock
    cases hblock

end Refers

/-! ## The identities of the functions -/

/-- The functions that are declared in a tree, in their order. -/
def functionIds (ns : List Node) : List FunctionId := (Node.partsAll ns).filterMap Node.functionId?

/-- They are numbered one after the other. -/
def Numbers (first next : FunctionId) (ids : List FunctionId) : Prop :=
  ∃ count, next = first + count ∧ ids = List.range' first count

namespace Numbers

variable {first between next : FunctionId} {ids more : List FunctionId}

theorem nil (first : FunctionId) : Numbers first first [] := ⟨0, rfl, rfl⟩

theorem append (h : Numbers first between ids) (h' : Numbers between next more) :
    Numbers first next (ids ++ more) := by
  obtain ⟨count, rfl, rfl⟩ := h
  obtain ⟨count', rfl, rfl⟩ := h'
  exact ⟨count + count', Nat.add_assoc .., List.range'_append_1⟩

theorem cons (h : Numbers (first + 1) next ids) : Numbers first next (first :: ids) := by
  obtain ⟨count, rfl, rfl⟩ := h
  exact ⟨count + 1, Nat.succ_add_eq_add_succ first count, rfl⟩

theorem nodup (h : Numbers first next ids) : ids.Nodup := by
  obtain ⟨count, -, rfl⟩ := h
  exact List.nodup_range'

end Numbers

theorem functionIds_append (ns ms : List Node) :
    functionIds (ns ++ ms) = functionIds ns ++ functionIds ms := by
  simp only [functionIds, Node.partsAll_eq, List.flatMap_append, List.filterMap_append]

theorem functionIds_line (h : n.Plain known) : functionIds [n] = [] := by
  rw [functionIds, Node.partsAll_eq, List.flatMap_singleton, List.filterMap_eq_nil_iff]
  exact fun m hm => (h.line m hm).2

theorem functionIds_scope (s : Scope) :
    s.parts.filterMap Node.functionId? = functionIds s.statements := by
  obtain ⟨statements, frame⟩ := s
  rw [functionIds, Scope.parts]

/-- A statement declares its own function, if it is one, and those of its blocks. -/
theorem functionIds_statement (hoperands : ∀ k ∈ n.operands, k.Plain known) :
    functionIds [n] = n.functionId?.toList ++
      n.blocks.flatMap fun block => functionIds block.2.statements := by
  have hnone : (n.operands.flatMap Node.parts).filterMap Node.functionId? = [] := by
    rw [List.filterMap_eq_nil_iff]
    intro m hm
    obtain ⟨k, hk, hm⟩ := List.mem_flatMap.mp hm
    exact ((hoperands k hk).line m hm).2
  rw [functionIds, Node.partsAll_eq, List.flatMap_singleton, Node.parts_eq, List.filterMap_cons,
    List.filterMap_append, hnone, List.filterMap_flatMap]
  simp only [functionIds_scope]
  cases n.functionId? <;> rfl

/-! ## Blocks -/

/-- A product refers to what is known, and what it leaves behind is declared among its statements. -/
structure Connects (known : Function → Prop) (outer : List Frame) (frame : Frame)
    (product : Product) (before after : State) : Prop where
  refers : Refers known product.statements
  numbers : Numbers before.next after.next (functionIds product.statements)
  leaves : ∃ new, (∀ f, .function f ∈ new → ∃ n ∈ product.statements, n.Defines f) ∧
    product.Leaves outer (frame ++ new) after.symbols

namespace Connects

variable {before after : State} {s : Scope} {header : List Node}

theorem line (hn : n.Plain known) (hnew : ∀ f, .function f ∉ new) (hnext : after.next = before.next)
    (hafter : after.symbols = ⟨(frame ++ new) :: outer⟩) :
    Connects known outer frame (.statement n) before after where
  refers := .line hn
  numbers := by
    rw [Product.statements, functionIds_line hn, hnext]
    exact .nil _
  leaves := ⟨new, fun f hf => absurd hf (hnew f), hafter⟩

/-- A statement that declares nothing and has one block. -/
theorem construct (hoperands : ∀ k ∈ n.operands, k.Plain known) (hid : n.functionId? = none)
    (hblocks : n.blocks = [(header, s)])
    (hrefers : Refers known s.statements)
    (hnumbers : Numbers before.next after.next (functionIds s.statements))
    (hafter : after.symbols = ⟨frame :: outer⟩) :
    Connects known outer frame (.statement n) before after where
  refers := by
    refine .statement hoperands (by rw [hblocks]; exact List.cons_ne_nil _ _) ?_
    rw [hblocks]
    exact List.forall_mem_singleton.mpr (hrefers.imp fun _ => .inl)
  numbers := by
    rw [Product.statements, functionIds_statement hoperands, hid, hblocks, List.flatMap_singleton]
    exact hnumbers
  leaves := ⟨[], fun _ hf => absurd hf List.not_mem_nil, by rwa [List.append_nil]⟩

/-- The statements behind one see what it declares. -/
theorem cons {between : State} {hasStatement : Bool} (hs : KnowsFunctions known (frame :: outer))
    (h : Connects known outer frame (.statement n) before between)
    (hmore : ∀ {known : Function → Prop} {frame : Frame} {outer : List Frame},
      between.symbols = ⟨frame :: outer⟩ → KnowsFunctions known (frame :: outer) →
      Connects known outer frame (.lines true ns) between after) :
    Connects known outer frame (.lines hasStatement (n :: ns)) before after := by
  obtain ⟨hfirst, hnumbers, new, hnew, hbetween⟩ := h
  have hs' : KnowsFunctions (fun f => known f ∨ ∃ m ∈ [n], m.Defines f) ((frame ++ new) :: outer) :=
    (hs.imp fun _ => .inl).append fun f hf => .inr (hnew f hf)
  obtain ⟨hrest, hnumbers', new', hnew', hafter⟩ := hmore hbetween hs'
  rw [List.append_assoc] at hafter
  refine ⟨hfirst.append hrest, ?_, new ++ new', fun f hf => ?_, hafter⟩
  · exact functionIds_append [n] ns ▸ hnumbers.append hnumbers'
  · rcases List.mem_append.mp hf with hf | hf
    · obtain ⟨m, hm, hdefines⟩ := hnew f hf
      exact ⟨m, List.mem_append_left ns hm, hdefines⟩
    · obtain ⟨m, hm, hdefines⟩ := hnew' f hf
      exact ⟨m, List.mem_cons_of_mem n hm, hdefines⟩

end Connects

theorem Derives.body_ne_nil {level : Nat} {before after : State} {s : Scope}
    (h : Derives level before (.body s) after) : s.statements ≠ [] := by
  cases h with
  | body hk hlevel hblock =>
    cases hblock with
    | block hlines =>
      cases hlines with
      | stop hstop =>
        have houtside := Parse.LinePlace.of_eq_outside (hstop.resolve_left hk)
        omega
      | here => exact List.cons_ne_nil _ _

theorem Derives.connects {level : Nat} {before after : State} {product : Product}
    (h : Derives level before product after) {known : Function → Prop} {frame : Frame}
    {outer : List Frame} (hframes : before.symbols = ⟨frame :: outer⟩)
    (hs : KnowsFunctions known (frame :: outer)) : Connects known outer frame product before after := by
  induction h generalizing known frame outer with
  | expression _ _ _ he =>
    obtain rfl : _ = _ := hframes
    exact .line (he.plain hs) (fun _ => List.not_mem_nil) rfl (by rw [List.append_nil])
  | declaration _ hd hi =>
    obtain rfl : _ = _ := hframes
    obtain ⟨hplain, hfunction⟩ := hd.plain hs
    obtain ⟨rfl, hnone⟩ := declare?_plain hi hfunction
    exact .line hplain hnone rfl rfl
  | @function _ _ _ _ _ _ _ next head ns returns s _ _ hsig hi hbody ih =>
    obtain rfl : _ = _ := hframes
    obtain ⟨-, -, -, hps, -, -⟩ := hsig
    obtain ⟨hparameters, new, rfl, hnew⟩ := hps.plain hs.openFrame
    obtain ⟨-, rfl⟩ := declare?_eq_some hi
    let f : Function := ⟨next, head.name.text, returns, head.name.location⟩
    have hdefines : (Node.function f ns (some s)).Defines f := ⟨ns, s, rfl, hbody.body_ne_nil⟩
    have hs' : KnowsFunctions (fun g => known g ∨ g = f) ((frame ++ [.function f]) :: outer) := by
      refine (hs.imp fun _ => .inl).append fun g hg => .inr ?_
      exact Identifier.function.inj (List.mem_singleton.mp hg)
    obtain ⟨hrefers, hnumbers, -, -, hafter, -⟩ :=
      ih rfl (hs'.openFrame.append fun g hg => absurd hg (hnew g))
    refine ⟨.statement hparameters (List.cons_ne_nil _ _) ?_, ?_, [.function f], ?_, hafter⟩
    · refine List.forall_mem_singleton.mpr (hrefers.imp fun g hg => hg.imp_right ?_)
      rintro rfl
      exact hdefines
    · rw [Product.statements, functionIds_statement (n := .function f ns (some s)) hparameters]
      simpa [f, Node.functionId?, Node.blocks, Product.statements] using hnumbers.cons
    · intro g hg
      obtain rfl := Identifier.function.inj (List.mem_singleton.mp hg)
      exact ⟨_, List.mem_singleton_self _, hdefines⟩
  | branch _ _ he _ _ _ ih =>
    obtain rfl : _ = _ := hframes
    obtain ⟨hrefers, hnumbers, -, -, hafter, -⟩ := ih rfl hs.openFrame
    exact .construct (List.forall_mem_singleton.mpr (he.plain hs)) rfl rfl hrefers hnumbers hafter
  | @alternative _ _ _ _ _ _ _ _ _ _ keyword _ test s s' _ _ _ he _ _ _ _ _ _ ih ih' =>
    obtain rfl : _ = _ := hframes
    obtain ⟨hrefers, hnumbers, -, -, hbetween, -⟩ := ih rfl hs.openFrame
    obtain rfl : _ = _ := hbetween
    obtain ⟨hrefers', hnumbers', -, -, hafter, -⟩ := ih' rfl hs.openFrame
    let n := Node.branch test s (some s') keyword.location
    have hoperands : ∀ k ∈ n.operands, k.Plain known := List.forall_mem_singleton.mpr (he.plain hs)
    refine ⟨.statement hoperands (List.cons_ne_nil _ _) ?_, ?_, [],
      fun _ hf => absurd hf List.not_mem_nil, by rwa [List.append_nil]⟩
    · exact List.forall_mem_cons.mpr ⟨hrefers.imp fun _ => .inl,
        List.forall_mem_singleton.mpr (hrefers'.imp fun _ => .inl)⟩
    · rw [Product.statements, functionIds_statement hoperands]
      simpa [n, Node.functionId?, Node.blocks, Product.statements] using hnumbers.append hnumbers'
  | whileLoop _ _ he _ _ ih =>
    obtain rfl : _ = _ := hframes
    obtain ⟨hrefers, hnumbers, -, -, hafter, -⟩ := ih rfl hs.openFrame
    exact .construct (List.forall_mem_singleton.mpr (he.plain hs)) rfl rfl hrefers hnumbers hafter
  | threePartLoop _ _ hparts _ ih =>
    obtain rfl : _ = _ := hframes
    obtain ⟨hinit, -, htest, -, hincrement⟩ := hparts
    obtain ⟨hplain, new, rfl, hnew⟩ := hinit.plain hs.openFrame
    have hs' := hs.openFrame.append fun f hf => absurd hf (hnew f)
    obtain ⟨hrefers, hnumbers, -, -, hafter, -⟩ := ih rfl hs'
    refine .construct ?_ rfl rfl hrefers hnumbers hafter
    exact List.forall_mem_append.mpr ⟨List.forall_mem_append.mpr ⟨hplain, htest.plain hs'⟩,
      hincrement.plain hs'⟩
  | rangeLoop _ _ hrange hi _ ih =>
    obtain rfl : _ = _ := hframes
    obtain ⟨-, he, -⟩ := hrange
    obtain ⟨hplain, hfunction⟩ := Declared.plain ..
    obtain ⟨rfl, hnone⟩ := declare?_plain hi hfunction
    obtain ⟨hrefers, hnumbers, -, -, hafter, -⟩ :=
      ih rfl (hs.openFrame.append fun f hf => absurd hf (hnone f))
    exact .construct (List.forall_mem_singleton.mpr (hplain.binary (he.plain hs))) rfl rfl
      hrefers hnumbers hafter
  | stop =>
    obtain rfl : _ = _ := hframes
    exact ⟨.nil, .nil _, [], fun _ hf => absurd hf List.not_mem_nil, by rw [List.append_nil]; rfl⟩
  | here _ _ _ _ ih ih' => exact .cons hs (ih hframes hs) ih'
  | deeper _ _ _ _ ih ih' =>
    obtain rfl : _ = _ := hframes
    obtain ⟨hrefers, hnumbers, -, -, hbetween, -⟩ := ih rfl hs.openFrame
    exact .cons hs (.construct (List.forall_mem_nil _) rfl rfl hrefers hnumbers hbetween) ih'
  | block _ ih =>
    obtain ⟨hrefers, hnumbers, new, hnew, hafter⟩ := ih hframes hs
    obtain rfl : _ = _ := hafter
    exact ⟨hrefers, hnumbers, new, hnew, rfl, rfl⟩
  | body _ _ _ ih =>
    obtain ⟨hrefers, hnumbers, hleaves⟩ := ih hframes hs
    exact ⟨hrefers, hnumbers, hleaves⟩

/-! ## Programs -/

namespace Functions

/-- The function exists and has a body. -/
def Completes (known : Functions) (id : FunctionId) : Prop := id ∈ known.living ∧ id ∈ known.defined

variable {a b : Functions} {id : FunctionId}

theorem Completes.left (h : a.Completes id) (b : Functions) : (a ++ b).Completes id :=
  ⟨List.mem_append_left _ h.1, List.mem_append_left _ h.2⟩

theorem Completes.right (h : b.Completes id) (a : Functions) : (a ++ b).Completes id :=
  ⟨List.mem_append_right _ h.1, List.mem_append_right _ h.2⟩

theorem target_of_completes {f : Function} (h : a.Completes f.id) : a.target f = .defined := by
  unfold target
  rw [if_pos (List.contains_iff_mem.mpr h.1), if_pos (List.contains_iff_mem.mpr h.2)]

end Functions

namespace Node

variable {k : Node} {id : FunctionId} {block : List Node × Scope}

theorem completes_functionsAll (hk : k ∈ ns) (h : k.functions.Completes id) :
    (functionsAll ns).Completes id := by
  induction ns with
  | nil => cases hk
  | cons n ns ih =>
    rcases List.mem_cons.mp hk with rfl | hk
    · exact h.left _
    · exact (ih hk).right _

theorem completes_scope {s : Scope} (hk : k ∈ s.statements) (h : k.functions.Completes id) :
    s.functions.Completes id := by
  obtain ⟨statements, frame⟩ := s
  exact (completes_functionsAll hk h).right _

theorem completes_operand (hk : k ∈ n.operands) (h : k.functions.Completes id) :
    n.functions.Completes id := by
  cases n with
  | function f parameters body => exact ((completes_functionsAll hk h).right _).left _
  | binary o left right place =>
    rcases List.mem_cons.mp hk with rfl | hk
    · exact h.left _
    · obtain rfl := List.mem_singleton.mp hk
      exact h.right _
  | forLoop init test increment body place =>
    simp only [operands, List.mem_append, Option.mem_toList] at hk
    rcases hk with (rfl | rfl) | rfl
    · exact ((h.left _).left _).left _
    · exact ((h.right _).left _).left _
    · exact (h.right _).left _
  | unary _ _ _ =>
    obtain rfl := List.mem_singleton.mp hk
    exact h
  | branch _ _ _ _ =>
    obtain rfl := List.mem_singleton.mp hk
    exact (h.left _).left _
  | whileLoop _ _ _ | rangeLoop _ _ _ =>
    obtain rfl := List.mem_singleton.mp hk
    exact h.left _
  | _ => cases hk

theorem completes_block (hblock : block ∈ n.blocks) (h : block.2.functions.Completes id) :
    n.functions.Completes id := by
  cases n with
  | function f parameters body =>
    cases body with
    | none => cases hblock
    | some body =>
      obtain rfl := List.mem_singleton.mp hblock
      exact h.right _
  | branch test consequence alternative place =>
    rcases List.mem_cons.mp hblock with rfl | hblock
    · exact (h.right _).left _
    · cases alternative with
      | none => cases hblock
      | some alternative =>
        obtain rfl := List.mem_singleton.mp hblock
        exact h.right _
  | scope s =>
    obtain rfl := List.mem_singleton.mp hblock
    exact h
  | whileLoop _ _ _ | forLoop _ _ _ _ _ | rangeLoop _ _ _ =>
    obtain rfl := List.mem_singleton.mp hblock
    exact h.right _
  | _ => cases hblock

/-- A declaration with a body anywhere in a tree completes its function. -/
theorem Defines.completes {f : Function} {m : Node} (h : m.Defines f) (hm : m ∈ n.parts) :
    n.functions.Completes f.id := by
  obtain ⟨parameters, body, rfl, -⟩ := h
  refine parts_induction (P := fun n => n.functions.Completes f.id) ?_ completes_operand ?_ n hm
  · have hself : (⟨[f.id], [f.id]⟩ : Functions).Completes f.id :=
      ⟨List.mem_singleton_self _, List.mem_singleton_self _⟩
    exact (hself.left _).left _
  · exact fun hblock hk h => completes_block hblock (completes_scope hk h)

end Node

/--
Every reference in a tree is to a function that is declared in front of it, in its block or in one around it,
or in whose body it stands. The declaration is in the same tree, under the same identity, name, type and place,
no other declaration has its identity, and its body is not empty.
-/
theorem compile_references {file source : String} {s : Scope} (h : compile file source = .ok s) :
    (∀ before around f, Shows s.statements before around (.reference f) →
      ∃ n ∈ before ++ around, n ∈ s.parts ∧ n.Defines f) ∧
    (∀ f, .reference f ∈ s.parts → s.functions.target f = .defined ∧
      ∃ before around, Shows s.statements before around (.reference f)) ∧
    (functionIds s.statements).Nodup := by
  obtain ⟨tokens, stop, symbols, next, -, -, hderives⟩ := compile_derives h
  have hempty : KnowsFunctions (fun _ => False) [[]] := 
    KnowsFunctions.openFrame (List.forall_mem_nil _)
  obtain ⟨hrefers, hnumbers, -⟩ := hderives.connects rfl hempty
  have hparts : ∀ {m : Node}, m ∈ s.parts ↔ m ∈ Node.partsAll s.statements := by
    intro m
    rw [Scope.mem_parts, Node.mem_partsAll]
  have hsees : ∀ before around f, Shows s.statements before around (.reference f) →
      ∃ n ∈ before ++ around, n ∈ s.parts ∧ n.Defines f := by
    intro before around f hshows
    obtain ⟨n, hn, hdefines⟩ := (hrefers before around f hshows).resolve_left id
    exact ⟨n, hn, hparts.mpr (Node.mem_parts_of_shows hshows n hn), hdefines⟩
  refine ⟨hsees, fun f hf => ?_, hnumbers.nodup⟩
  obtain ⟨before, around, hshows⟩ := Node.exists_shows (hparts.mp hf)
  obtain ⟨n, -, hn, hdefines⟩ := hsees before around f hshows
  obtain ⟨k, hk, hn⟩ := Scope.mem_parts.mp hn
  exact ⟨Functions.target_of_completes (Node.completes_scope hk (hdefines.completes hn)),
    before, around, hshows⟩

/-- A function that refers to itself from a function inside of it, which hides a function of the same name. -/
theorem compile_references_nested :
    ∃ s, compile "" "g :: ()\n    1\nf :: ()\n    g :: ()\n        f\n    g\ng\n" = .ok s ∧
      (s.parts.filterMap fun n =>
        match n with
        | .reference f => some f.id
        | _ => none) = [1, 2, 0] ∧
      (∀ before around f, Shows s.statements before around (.reference f) →
        ∃ n ∈ before ++ around, n ∈ s.parts ∧ n.Defines f) ∧
      (∀ f, .reference f ∈ s.parts → s.functions.target f = .defined ∧
        ∃ before around, Shows s.statements before around (.reference f)) ∧
      (functionIds s.statements).Nodup := by
  have hids : ((compile "" "g :: ()\n    1\nf :: ()\n    g :: ()\n        f\n    g\ng\n").map fun s =>
      s.parts.filterMap fun n =>
        match n with
        | .reference f => some f.id
        | _ => none).toOption = some [1, 2, 0] := by
    decide +kernel
  obtain ⟨s, hs, hids⟩ := Execution.exists_ok_of_map hids
  exact ⟨s, hs, hids, compile_references hs⟩

end Offside
