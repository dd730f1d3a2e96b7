import Mathlib.Data.List.Nodup
import Offside.Proofs.BlockStructure

/-!
# Names are resolved by their blocks

Every name in an expression of a tree stands for the declaration of the nearest block around it that has
declared the name so far.
-/

namespace Offside

set_option autoImplicit false

open Rules

/-- What the names in an expression stand for, from left to right. -/
def Node.uses : Node → List Identifier
  | .var v => [.var v]
  | .reference f => [.function f]
  | .unary _ operand _ => operand.uses
  | .binary _ left right _ => left.uses ++ right.uses
  | _ => []

/-- The names that are written in an expression. -/
def namesIn (ts : List Token) : List String :=
  (ts.filter (·.kind == .identifier)).map Token.text

/-- `i` is the declaration of the name in the first of the blocks that has one. -/
inductive Nearest : List Frame → String → Identifier → Prop where
  | here {frame : Frame} {outer : List Frame} {name : String} {i : Identifier} : i ∈ frame →
      i.name = name → (∀ j ∈ frame, j.name = name → j = i) → Nearest (frame :: outer) name i
  | outside {frame : Frame} {outer : List Frame} {name : String} {i : Identifier} :
      (∀ j ∈ frame, j.name ≠ name) → Nearest outer name i → Nearest (frame :: outer) name i

/-- A name stands for one entity at most. -/
theorem Nearest.unique {blocks : List Frame} {name : String} {i j : Identifier}
    (hi : Nearest blocks name i) (hj : Nearest blocks name j) : i = j := by
  induction hi with
  | here hi hiname hunique =>
    cases hj with
    | here hj hjname _ => exact (hunique _ hj hjname).symm
    | outside hnone _ => exact absurd hiname (hnone _ hi)
  | outside hnone _ ih =>
    cases hj with
    | here hj hjname _ => exact absurd hjname (hnone _ hj)
    | outside _ hj => exact ih hj

/-- The names in the tokens of an expression stand for what is nearest, and so they do in its tree. -/
structure Resolves (blocks : List Frame) (ts : List Token) (n : Node) : Prop where
  isExpression : n.IsExpression
  uses : List.Forall₂ (Nearest blocks) (namesIn ts) n.uses

/-- The block has no declaration of the name yet, and `i` becomes the one at that place. -/
structure Frame.Takes (frame : Frame) (name : String) (place : Location) (i : Identifier) : Prop where
  fresh : ∀ j ∈ frame, j.name ≠ name
  name : i.name = name
  place : i.location = place

/-- A declaration in a block with the blocks `outer` around it; its value does not see it. -/
inductive Introduces (outer : List Frame) (frame : Frame) : List Token → Node → Frame → Prop where
  | value {ts us : List Token} {head : DeclarationHead} {t : Token} {i : Identifier} {value : Node}
      {place : Location} : Head ts head → t.isOperator "=" ∨ t.isDelimiter ":" →
      Resolves (frame :: outer) us value → frame.Takes head.name.text head.name.location i →
      Introduces outer frame (ts ++ t :: us) (.binary .assignment i.toNode value place)
        (frame ++ [i])
  | bare {ts : List Token} {head : DeclarationHead} {i : Identifier} : Head ts head →
      frame.Takes head.name.text head.name.location i →
      Introduces outer frame ts i.toNode (frame ++ [i])

/-- Declarations between commas, each of which sees those in front of it. -/
inductive IntroducesAll (outer : List Frame) :
    Frame → List Token → List Node → Frame → Prop where
  | none {frame : Frame} : IntroducesAll outer frame [] [] frame
  | last {frame frame' : Frame} {ts : List Token} {n : Node} : Introduces outer frame ts n frame' →
      IntroducesAll outer frame ts [n] frame'
  | more {frame frame₁ frame' : Frame} {ts us : List Token} {n : Node} {ns : List Node}
      {comma : Token} : Introduces outer frame ts n frame₁ → comma.isDelimiter "," →
      IntroducesAll outer frame₁ us ns frame' →
      IntroducesAll outer frame (ts ++ comma :: us) (n :: ns) frame'

/--
How names are resolved in the lines of some statements. They are the statements of a block that has declared
`frame` so far and `frame'` behind them, and `outer` are the blocks around it: a block that ends leaves
nothing behind.
-/
inductive Scoped : List Frame → Frame → List (List Token) → List Node → Frame → Prop where
  | nil {outer : List Frame} {frame : Frame} : Scoped outer frame [] [] frame
  | append {outer : List Frame} {frame frame₁ frame' : Frame} {lines lines' : List (List Token)}
      {ns ns' : List Node} : Scoped outer frame lines ns frame₁ →
      Scoped outer frame₁ lines' ns' frame' →
      Scoped outer frame (lines ++ lines') (ns ++ ns') frame'
  | expression {outer : List Frame} {frame : Frame} {line : List Token} {n : Node} :
      ¬ IsDeclaration line → Resolves (frame :: outer) line n → Scoped outer frame [line] [n] frame
  | declaration {outer : List Frame} {frame frame' : Frame} {line : List Token} {n : Node} :
      Introduces outer frame line n frame' → Scoped outer frame [line] [n] frame'
  /-- The parameters do not see the function, but its block does, and it sees the parameters. -/
  | function {outer : List Frame} {frame parameters : Frame} {ts ps rs : List Token}
      {colon opening closing : Token} {head : DeclarationHead} {ns : List Node} {f : Function}
      {lines : List (List Token)} {s : Scope} : Head ts head → colon.isDelimiter ":" →
      opening.isDelimiter "(" → IntroducesAll (frame :: outer) [] ps ns parameters →
      closing.isDelimiter ")" → (∀ t ∈ rs, ¬ t.isDelimiter ")") →
      frame.Takes head.name.text head.name.location (.function f) →
      Scoped ((frame ++ [.function f]) :: outer) parameters lines s.statements s.frame →
      Scoped outer frame ((ts ++ colon :: opening :: ps ++ closing :: rs) :: lines)
        [.function f ns (some s)] (frame ++ [.function f])
  | branch {outer : List Frame} {frame : Frame} {keyword : Token} {line : List Token} {test : Node}
      {lines : List (List Token)} {s : Scope} {place : Location} : keyword.isKeyword .ifThen →
      Resolves (frame :: outer) line test →
      Scoped (frame :: outer) [] lines s.statements s.frame →
      Scoped outer frame ((keyword :: line) :: lines) [.branch test s none place] frame
  | alternative {outer : List Frame} {frame : Frame} {keyword orElse : Token} {line : List Token}
      {test : Node} {lines lines' : List (List Token)} {s s' : Scope} {place : Location} :
      keyword.isKeyword .ifThen → orElse.isKeyword .orElse → Resolves (frame :: outer) line test →
      Scoped (frame :: outer) [] lines s.statements s.frame →
      Scoped (frame :: outer) [] lines' s'.statements s'.frame →
      Scoped outer frame ((keyword :: line) :: lines ++ [orElse] :: lines')
        [.branch test s (some s') place] frame
  | whileLoop {outer : List Frame} {frame : Frame} {keyword : Token} {line : List Token}
      {test : Node} {lines : List (List Token)} {s : Scope} {place : Location} :
      keyword.isKeyword .whileLoop → Resolves (frame :: outer) line test →
      Scoped (frame :: outer) [] lines s.statements s.frame →
      Scoped outer frame ((keyword :: line) :: lines) [.whileLoop test s place] frame
  /-- What the loop declares is seen by all behind it, and by its block. -/
  | threePartLoop {outer : List Frame} {frame first : Frame} {keyword comma comma' : Token}
      {ts us vs : List Token} {init test increment : Option Node} {lines : List (List Token)}
      {s : Scope} {place : Location} : keyword.isKeyword .forLoop →
      IntroducesAll (frame :: outer) [] ts init.toList first → comma.isDelimiter "," →
      (∀ n ∈ test, Resolves (first :: frame :: outer) us n) → comma'.isDelimiter "," →
      (∀ n ∈ increment, Resolves (first :: frame :: outer) vs n) →
      Scoped (frame :: outer) first lines s.statements s.frame →
      Scoped outer frame ((keyword :: (ts ++ comma :: us ++ comma' :: vs)) :: lines)
        [.forLoop init test increment s place] frame
  /-- The range does not see the variable of the loop, but its block does. -/
  | rangeLoop {outer : List Frame} {frame : Frame} {keyword : Token} {ts us : List Token}
      {name : String} {place : Location} {i : Identifier} {range : Node}
      {lines : List (List Token)} {s : Scope} : keyword.isKeyword .forLoop →
      LoopName keyword ts name place → Resolves (frame :: outer) us range →
      Frame.Takes [] name place i → Scoped (frame :: outer) [i] lines s.statements s.frame →
      Scoped outer frame ((keyword :: (ts ++ us)) :: lines)
        [.rangeLoop (.binary .assignment i.toNode range place) s keyword.location] frame
  | scope {outer : List Frame} {frame : Frame} {lines : List (List Token)} {s : Scope} :
      Scoped (frame :: outer) [] lines s.statements s.frame →
      Scoped outer frame lines [.scope s] frame

/-! ## What is looked up -/

/-- No block has two declarations of one name. -/
def Distinct (blocks : List Frame) : Prop := ∀ frame ∈ blocks, frame.names.Nodup

theorem Distinct.cons {frame : Frame} {outer : List Frame} (h : Distinct outer)
    (hn : frame.names.Nodup) : Distinct (frame :: outer) :=
  List.forall_mem_cons.mpr ⟨hn, h⟩

theorem Distinct.openFrame {blocks : List Frame} (h : Distinct blocks) : Distinct ([] :: blocks) :=
  h.cons List.nodup_nil

theorem Distinct.first {frame : Frame} {outer : List Frame} (h : Distinct (frame :: outer)) :
    frame.names.Nodup :=
  (List.forall_mem_cons.mp h).1

theorem Distinct.outer {frame : Frame} {outer : List Frame} (h : Distinct (frame :: outer)) :
    Distinct outer :=
  (List.forall_mem_cons.mp h).2

theorem Frame.Takes.nodup {frame : Frame} {name : String} {place : Location} {i : Identifier}
    (h : frame.Takes name place i) (hn : frame.names.Nodup) : (frame ++ [i]).names.Nodup := by
  have hfresh : i.name ∉ frame.names := by
    intro hmem
    obtain ⟨j, hj, hji⟩ := List.mem_map.mp hmem
    exact h.fresh j hj (hji.trans h.name)
  rw [names, List.map_append, List.map_singleton, ← List.concat_eq_append]
  exact hn.concat hfresh

theorem nearest_of_lookup? {blocks : List Frame} {name : String} {i : Identifier}
    (hd : Distinct blocks) (h : SymbolTable.lookup? name ⟨blocks⟩ = some i) :
    Nearest blocks name i := by
  induction blocks with
  | nil => cases h
  | cons frame outer ih =>
    rw [SymbolTable.lookup?, List.findSome?_cons] at h
    cases hfound : Frame.lookup? name frame with
    | some j =>
      simp only [hfound, Option.some.injEq] at h
      obtain rfl := h
      have hname : j.name = name := by simpa using List.find?_some hfound
      subst hname
      have hj := List.mem_of_find?_eq_some hfound
      exact .here hj rfl fun k hk hkj => List.inj_on_of_nodup_map hd.first hk hj hkj
    | none =>
      simp only [hfound] at h
      refine .outside (fun j hj => ?_) (ih hd.outer h)
      simpa using List.find?_eq_none.mp hfound j hj

@[simp] theorem namesIn_nil : namesIn [] = [] := rfl

@[simp] theorem namesIn_append (ts us : List Token) :
    namesIn (ts ++ us) = namesIn ts ++ namesIn us := by
  simp [namesIn]

theorem namesIn_cons_of_identifier {t : Token} (h : t.kind = .identifier) (ts : List Token) :
    namesIn (t :: ts) = t.text :: namesIn ts := by
  simp [namesIn, h]

theorem namesIn_cons_of_ne {t : Token} (h : t.kind ≠ .identifier) (ts : List Token) :
    namesIn (t :: ts) = namesIn ts := by
  simp [namesIn, h]

theorem IsOperand.uses {blocks : List Frame} {t : Token} {n : Node} (hd : Distinct blocks)
    (h : IsOperand ⟨blocks⟩ t n) : List.Forall₂ (Nearest blocks) (namesIn [t]) n.uses := by
  cases h with
  | literal hk =>
    rw [namesIn_cons_of_ne (by simp [hk])]
    exact .nil
  | var hk hl | reference hk hl =>
    rw [namesIn_cons_of_identifier hk]
    exact .cons (nearest_of_lookup? hd hl) .nil

theorem Phrase.Grammatical.uses {blocks : List Frame} {q : Phrase} (hd : Distinct blocks)
    (h : q.Grammatical ⟨blocks⟩) :
    List.Forall₂ (Nearest blocks) (namesIn q.tokens) q.node.uses := by
  induction h with
  | operand hn => exact hn.uses hd
  | enclosed ha _ hb ih =>
    have hopening := Token.kind_of_isDelimiter ha
    have hclosing := Token.kind_of_isDelimiter hb
    rw [tokens, List.cons_append, namesIn_cons_of_ne (by simp [hopening]), namesIn_append,
      namesIn_cons_of_ne (by simp [hclosing]), namesIn_nil, List.append_nil]
    exact ih
  | before ht _ _ ih =>
    rw [tokens, namesIn_cons_of_ne (by simp [Token.kind_of_isOperator ht])]
    exact ih
  | behind hn ht _ =>
    cases hn with
    | var hk hl =>
      rw [tokens, namesIn_cons_of_identifier hk,
        namesIn_cons_of_ne (by simp [Token.kind_of_isOperator ht])]
      exact .cons (nearest_of_lookup? hd hl) .nil
  | between _ ht _ _ ihl ihr =>
    rw [tokens, namesIn_append, namesIn_cons_of_ne (by simp [Token.kind_of_isOperator ht])]
    exact List.rel_append ihl ihr

theorem Node.IsExpression.uses_of_value? {n : Node} (h : n.IsExpression) {l : Literal}
    (hv : n.value? = .ok (some l)) : n.uses = [] := by
  induction h generalizing l with
  | literal => rfl
  | var | reference | unary => cases hv
  | @binary o a b place _ _ iha ihb =>
    unfold value? at hv
    cases ha : a.value? with
    | error d => simp [ha, bind, Except.bind] at hv
    | ok left =>
      cases left with
      | none => simp [ha, bind, Except.bind, pure, Except.pure] at hv
      | some x =>
        cases hb : b.value? with
        | error d => simp [ha, hb, bind, Except.bind] at hv
        | ok right =>
          cases right with
          | none => simp [ha, hb, bind, Except.bind, pure, Except.pure] at hv
          | some y => rw [uses, iha ha, ihb hb, List.append_nil]

theorem Node.IsExpression.uses_fold {n m : Node} (h : n.IsExpression) (hfold : n.fold = .ok m) :
    m.uses = n.uses := by
  rcases fold_eq_ok hfold with rfl | ⟨l, hv, rfl⟩
  · rfl
  · exact (h.uses_of_value? hv).symm

theorem Expressed.resolves {blocks : List Frame} {ts : List Token} {n : Node}
    (hd : Distinct blocks) (h : Expressed ⟨blocks⟩ ts n) : Resolves blocks ts n := by
  refine ⟨h.isExpression, ?_⟩
  obtain ⟨q, hq, -, rfl, -, -, hfold⟩ := h
  rw [hq.isExpression.uses_fold hfold]
  exact hq.uses hd

/-! ## What is declared -/

theorem declare?_eq_some {frame : Frame} {outer : List Frame} {i : Identifier}
    {symbols : SymbolTable} (h : SymbolTable.declare? i ⟨frame :: outer⟩ = some symbols) :
    (∀ j ∈ frame, j.name ≠ i.name) ∧ symbols = ⟨(frame ++ [i]) :: outer⟩ := by
  unfold SymbolTable.declare? at h
  dsimp only at h
  split at h
  · cases h
  · next hfresh =>
    have hnone : Frame.lookup? i.name frame = none := by simpa using hfresh
    refine ⟨fun j hj => ?_, (Option.some.inj h).symm⟩
    simpa using List.find?_eq_none.mp hnone j hj

theorem Declared.name_identifier (d : Declared) (name : String) (type : DataType)
    (location : Location) : (d.identifier name type location).name = name := by
  cases d <;> rfl

theorem Declared.location_identifier (d : Declared) (name : String) (type : DataType)
    (location : Location) : (d.identifier name type location).location = location := by
  cases d <;> rfl

theorem takes_of_declare? {frame : Frame} {outer : List Frame} {d : Declared} {name : String}
    {type : DataType} {place : Location} {symbols : SymbolTable}
    (h : SymbolTable.declare? (d.identifier name type place) ⟨frame :: outer⟩ = some symbols) :
    frame.Takes name place (d.identifier name type place) ∧
      symbols = ⟨(frame ++ [d.identifier name type place]) :: outer⟩ := by
  obtain ⟨hfresh, hsymbols⟩ := declare?_eq_some h
  rw [d.name_identifier] at hfresh
  exact ⟨⟨hfresh, d.name_identifier .., d.location_identifier ..⟩, hsymbols⟩

namespace Rules

variable {outer : List Frame} {frame : Frame} {symbols : SymbolTable} {ts : List Token}

theorem Declares.introduces {d : Declared} {n : Node} {i : Identifier}
    (hd : Distinct (frame :: outer)) (h : Declares ⟨frame :: outer⟩ d ts n i)
    (hi : SymbolTable.declare? i ⟨frame :: outer⟩ = some symbols) :
    ∃ frame', Introduces outer frame ts n frame' ∧ frame'.names.Nodup ∧
      symbols = ⟨frame' :: outer⟩ := by
  have hframe := hd.first
  cases h with
  | value hhead hseparates he _ =>
    obtain ⟨htakes, rfl⟩ := takes_of_declare? hi
    refine ⟨_, .value hhead ?_ (he.resolves hd) htakes, htakes.nodup hframe, rfl⟩
    cases hseparates with
    | equals ht => exact .inl ht
    | colon ht => exact .inr ht
  | bare hhead =>
    obtain ⟨htakes, rfl⟩ := takes_of_declare? hi
    exact ⟨_, .bare hhead htakes, htakes.nodup hframe, rfl⟩

theorem Parameters.introduces {symbols' : SymbolTable} {ns : List Node}
    (h : Parameters symbols ts ns symbols') {frame : Frame} (hs : symbols = ⟨frame :: outer⟩)
    (hd : Distinct (frame :: outer)) :
    ∃ frame', IntroducesAll outer frame ts ns frame' ∧ frame'.names.Nodup ∧
      symbols' = ⟨frame' :: outer⟩ := by
  induction h generalizing frame with
  | last hn hi =>
    subst hs
    obtain ⟨frame', hintroduces, hrest⟩ := hn.introduces hd hi
    exact ⟨frame', .last hintroduces, hrest⟩
  | more hn hi hcomma _ ih =>
    subst hs
    obtain ⟨frame₁, hintroduces, hnames, rfl⟩ := hn.introduces hd hi
    obtain ⟨frame', hmore, hrest⟩ := ih rfl (hd.outer.cons hnames)
    exact ⟨frame', .more hintroduces hcomma hmore, hrest⟩

theorem ParameterList.introduces {symbols' : SymbolTable} {ns : List Node}
    (hd : Distinct (frame :: outer)) (h : ParameterList ⟨frame :: outer⟩ ts ns symbols') :
    ∃ frame', IntroducesAll outer frame ts ns frame' ∧ frame'.names.Nodup ∧
      symbols' = ⟨frame' :: outer⟩ := by
  cases h with
  | none => exact ⟨frame, .none, hd.first, rfl⟩
  | some hps => exact hps.introduces rfl hd

theorem LoopInit.introduces {symbols' : SymbolTable} {init : Option Node}
    (hd : Distinct (frame :: outer)) (h : LoopInit ⟨frame :: outer⟩ ts init symbols') :
    ∃ frame', IntroducesAll outer frame ts init.toList frame' ∧ frame'.names.Nodup ∧
      symbols' = ⟨frame' :: outer⟩ := by
  cases h with
  | none => exact ⟨frame, .none, hd.first, rfl⟩
  | some hn _ hi =>
    obtain ⟨frame', hintroduces, hrest⟩ := hn.introduces hd hi
    exact ⟨frame', .last hintroduces, hrest⟩

theorem OptionalExpression.resolves {blocks : List Frame} {allowed : DataType → Prop}
    {o : Option Node} (hd : Distinct blocks) (h : OptionalExpression ⟨blocks⟩ allowed ts o) :
    ∀ n ∈ o, Resolves blocks ts n := by
  cases h with
  | none => nofun
  | some he =>
    rintro _ ⟨⟩
    exact he.resolves hd

theorem ResultType.not_isDelimiter {declared type : DataType} (h : ResultType declared ts type) :
    ∀ t ∈ ts, ¬ t.isDelimiter ")" := by
  cases h with
  | written harrow ht =>
    have hkind := Token.kind_of_isOperator harrow
    simp [Token.isDelimiter, Token.is, hkind, ht]
  | implied => exact List.forall_mem_nil _

end Rules

/-! ## What the rules resolve -/

/-- The statements between two places of the tokens are scoped, and they leave `frame'`. -/
structure Resolution (outer : List Frame) (frame : Frame) (before : List Token) (ns : List Node)
    (frame' : Frame) (after : List Token) : Prop where
  names : frame'.names.Nodup
  lines : ∃ lines, logicalLines before = lines ++ logicalLines after ∧
    Scoped outer frame lines ns frame'

variable {outer : List Frame} {frame frame₁ frame' : Frame}

theorem Resolution.trans {ns ns' : List Node} {ts us vs : List Token}
    (h₁ : Resolution outer frame ts ns frame₁ us)
    (h₂ : Resolution outer frame₁ us ns' frame' vs) :
    Resolution outer frame ts (ns ++ ns') frame' vs := by
  obtain ⟨-, lines, hl, hscoped⟩ := h₁
  obtain ⟨hnames, lines', hl', hscoped'⟩ := h₂
  refine ⟨hnames, lines ++ lines', ?_, hscoped.append hscoped'⟩
  rw [hl, hl', List.append_assoc]

theorem Resolution.line {tokens line rest : List Token} {n : Node}
    (ht : TakesLine tokens line rest) (hnames : frame'.names.Nodup)
    (h : Scoped outer frame [line] [n] frame') : Resolution outer frame tokens [n] frame' rest :=
  ⟨hnames, [line], logicalLines_of_takesLine ht, h⟩

/-- A statement that is a line and a block below it, which begins with `first` in front of its own. -/
theorem Resolution.nested {tokens line rest after : List Token} {n : Node} {inner : List Frame}
    {first last : Frame} {ns : List Node} (ht : TakesLine tokens line rest)
    (hnames : frame'.names.Nodup) (hbody : Resolution inner first rest ns last after)
    (h : ∀ lines, Scoped inner first lines ns last → Scoped outer frame (line :: lines) [n] frame') :
    Resolution outer frame tokens [n] frame' after := by
  obtain ⟨-, lines, hl, hscoped⟩ := hbody
  refine ⟨hnames, line :: lines, ?_, h lines hscoped⟩
  rw [logicalLines_of_takesLine ht, hl, List.cons_append]

def Rules.Product.statements : Product → List Node
  | .statement n => [n]
  | .lines _ ns => ns
  | .block s | .body s => s.statements

/-- The names behind a product; its block is gone with all that it declares. -/
def Rules.Product.Leaves (outer : List Frame) (frame : Frame) (symbols : SymbolTable) :
    Product → Prop
  | .statement _ | .lines _ _ => symbols = ⟨frame :: outer⟩
  | .block s | .body s => symbols = ⟨outer⟩ ∧ s.frame = frame

theorem Derives.resolution {level : Nat} {before after : State} {product : Product}
    (h : Derives level before product after) {outer : List Frame} {frame : Frame}
    (hs : before.symbols = ⟨frame :: outer⟩) (hd : Distinct (frame :: outer)) :
    ∃ frame', Resolution outer frame before.tokens product.statements frame' after.tokens ∧
      product.Leaves outer frame' after.symbols := by
  induction h generalizing outer frame with
  | expression ht hline _ he =>
    obtain rfl : _ = _ := hs
    have hframe := hd.first
    exact ⟨frame, .line ht hframe (.expression hline (he.resolves hd)), rfl⟩
  | declaration ht hn hi =>
    obtain rfl : _ = _ := hs
    obtain ⟨frame', hintroduces, hnames, rfl⟩ := hn.introduces hd hi
    exact ⟨frame', .line ht hnames (.declaration hintroduces), rfl⟩
  | function ht hsig hi _ ih =>
    obtain rfl : _ = _ := hs
    obtain ⟨hhead, hcolon, hopening, hps, hclosing, hresult⟩ := hsig
    -- The frame of the parameters is closed while the function is declared, and opened again above it.
    obtain ⟨parameters, hintroduces, hnames, rfl⟩ := hps.introduces hd.openFrame
    obtain ⟨hfresh, rfl⟩ := declare?_eq_some hi
    have htakes : frame.Takes _ _ (.function _) := ⟨hfresh, rfl, rfl⟩
    have hframe' := htakes.nodup hd.first
    have hd' := (hd.outer.cons hframe').cons hnames
    obtain ⟨_, hbody, hafter, rfl⟩ := ih rfl hd'
    refine ⟨_, .nested ht hframe' hbody fun _ hlines => ?_, hafter⟩
    exact .function hhead hcolon hopening hintroduces hclosing hresult.not_isDelimiter htakes hlines
  | branch ht hk he _ _ _ ih =>
    obtain rfl : _ = _ := hs
    have hframe := hd.first
    obtain ⟨_, hbody, hafter, rfl⟩ := ih rfl hd.openFrame
    have htest := he.resolves hd
    exact ⟨frame, .nested ht hframe hbody fun _ hlines => .branch hk htest hlines, hafter⟩
  | alternative ht hk he _ _ ht' hk' _ _ ih ih' =>
    obtain rfl : _ = _ := hs
    have hframe := hd.first
    obtain ⟨_, hbody, hbetween, rfl⟩ := ih rfl hd.openFrame
    obtain rfl : _ = _ := hbetween
    obtain ⟨_, hbody', hafter, rfl⟩ := ih' rfl hd.openFrame
    have htest := he.resolves hd
    obtain ⟨-, lines, hl, hscoped⟩ := hbody
    obtain ⟨-, lines', hl', hscoped'⟩ := hbody'
    refine ⟨frame, ⟨hframe, _, ?_, .alternative hk hk' htest hscoped hscoped'⟩, hafter⟩
    rw [logicalLines_of_takesLine ht, hl, logicalLines_of_takesLine ht', hl']
    simp
  | whileLoop ht hk he _ _ ih =>
    obtain rfl : _ = _ := hs
    have hframe := hd.first
    obtain ⟨_, hbody, hafter, rfl⟩ := ih rfl hd.openFrame
    have htest := he.resolves hd
    exact ⟨frame, .nested ht hframe hbody fun _ hlines => .whileLoop hk htest hlines, hafter⟩
  | threePartLoop ht hk hparts _ ih =>
    obtain rfl : _ = _ := hs
    have hframe := hd.first
    obtain ⟨hinit, hcomma, htest, hcomma', hincrement⟩ := hparts
    obtain ⟨first, hintroduces, hnames, rfl⟩ := hinit.introduces hd.openFrame
    have hd' := hd.cons hnames
    obtain ⟨_, hbody, hafter, rfl⟩ := ih rfl hd'
    refine ⟨frame, .nested ht hframe hbody fun _ hlines => ?_, hafter⟩
    exact .threePartLoop hk hintroduces hcomma (htest.resolves hd') hcomma'
      (hincrement.resolves hd') hlines
  | rangeLoop ht hk hrange hi _ ih =>
    obtain rfl : _ = _ := hs
    have hframe := hd.first
    obtain ⟨hname, he, -⟩ := hrange
    obtain ⟨htakes, rfl⟩ := takes_of_declare? hi
    have hd' := hd.cons (htakes.nodup List.nodup_nil)
    obtain ⟨_, hbody, hafter, rfl⟩ := ih rfl hd'
    refine ⟨frame, .nested ht hframe hbody fun _ hlines => ?_, hafter⟩
    exact .rangeLoop hk hname (he.resolves hd) htakes hlines
  | stop =>
    obtain rfl : _ = _ := hs
    exact ⟨frame, ⟨hd.first, [], rfl, .nil⟩, rfl⟩
  | here _ _ _ _ ih ih' =>
    obtain ⟨frame₁, hfirst, hbetween⟩ := ih hs hd
    obtain ⟨frame', hmore, hafter⟩ := ih' hbetween (hd.outer.cons hfirst.names)
    exact ⟨frame', hfirst.trans hmore, hafter⟩
  | deeper _ _ _ _ ih ih' =>
    obtain rfl : _ = _ := hs
    obtain ⟨_, ⟨-, lines, hl, hscoped⟩, hbetween, rfl⟩ := ih rfl hd.openFrame
    have hblock := Resolution.mk (hd.first) ⟨lines, hl, hscoped.scope⟩
    obtain ⟨frame', hmore, hafter⟩ := ih' hbetween hd
    exact ⟨frame', hblock.trans hmore, hafter⟩
  | block _ ih =>
    obtain ⟨frame', hlines, hafter⟩ := ih hs hd
    obtain rfl : _ = _ := hafter
    exact ⟨frame', hlines, rfl, rfl⟩
  | body _ _ _ ih => exact ih hs hd

/-- The names in the tree of a source text are resolved by the blocks of its lines. -/
theorem compile_scoped {file source : String} {s : Scope} (h : compile file source = .ok s) :
    ∃ tokens, tokenize source file = .ok tokens ∧
      Scoped [] [] (logicalLines tokens) s.statements s.frame := by
  obtain ⟨tokens, stop, symbols, next, ht, hstop, hderives⟩ := compile_derives h
  have hempty : Distinct [] := List.forall_mem_nil _
  obtain ⟨_, ⟨-, lines, hlines, hscoped⟩, -, rfl⟩ :=
    hderives.resolution rfl hempty.openFrame
  have hend : logicalLines [stop] = [] := by simp [logicalLines, hstop]
  refine ⟨tokens, ht, ?_⟩
  rw [hlines, hend, List.append_nil]
  exact hscoped

/-- The value of a variable that hides another one sees the other, and so does what is behind its block. -/
theorem compile_scoped_hidden :
    ∃ s tokens, compile "" "a: int = 1\n    a: = a + 1\n    a\na\n" = .ok s ∧
      ((s.statements.filterMap Node.scope?).flatMap (·.statements) ++ s.statements).flatMap
          Node.uses =
        [.var ⟨"a", .int, false, ⟨"", 2, 5⟩⟩, .var ⟨"a", .int, false, ⟨"", 1, 1⟩⟩,
          .var ⟨"a", .int, false, ⟨"", 2, 5⟩⟩, .var ⟨"a", .int, false, ⟨"", 1, 1⟩⟩,
          .var ⟨"a", .int, false, ⟨"", 1, 1⟩⟩] ∧
      tokenize "a: int = 1\n    a: = a + 1\n    a\na\n" "" = .ok tokens ∧
      Scoped [] [] (logicalLines tokens) s.statements s.frame := by
  have hok : ((compile "" "a: int = 1\n    a: = a + 1\n    a\na\n").map fun s =>
      ((s.statements.filterMap Node.scope?).flatMap (·.statements) ++ s.statements).flatMap
        Node.uses).toOption =
        some [.var ⟨"a", .int, false, ⟨"", 2, 5⟩⟩, .var ⟨"a", .int, false, ⟨"", 1, 1⟩⟩,
          .var ⟨"a", .int, false, ⟨"", 2, 5⟩⟩, .var ⟨"a", .int, false, ⟨"", 1, 1⟩⟩,
          .var ⟨"a", .int, false, ⟨"", 1, 1⟩⟩] := by decide +kernel
  cases hs : compile "" "a: int = 1\n    a: = a + 1\n    a\na\n" with
  | error d => simp [hs, Except.map, Except.toOption] at hok
  | ok s =>
    simp only [hs, Except.map, Except.toOption, Option.some.injEq] at hok
    obtain ⟨tokens, ht, hscoped⟩ := compile_scoped hs
    exact ⟨s, tokens, rfl, hok, ht, hscoped⟩

end Offside
