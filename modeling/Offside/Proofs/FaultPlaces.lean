import Offside.Proofs.ExpressionPlaces

/-!
# Where a fault points

A fault in a statement points at a token from the statement's first one on, with one exception. A name in an
expression has the place of its declaration, so a fault about the type of an expression that is a name and
nothing else points there, even if the declaration stands in front of the statement.
-/

namespace Offside

set_option autoImplicit false

open Execution

variable {known : Frame} {ts : List Token}

/-- On its way through a statement a parser has only names that are declared there or were known before. -/
structure Parser.Amid (known : Frame) (ts : List Token) (p : Parser) : Prop where
  stream : p.stream.tokens <:+ ts
  names : p.symbols.Every (Identifier.Sits known ts)

theorem Parser.Amid.current {p : Parser} (h : p.Amid known ts) : p.stream.current ∈ ts :=
  h.stream.mem p.stream.current_mem

namespace Parse

variable {α : Type} {t : Token}

/-- From a parser amid the statement to one amid it; a fault points into it or at a known name. -/
abbrev Located (known : Frame) (ts : List Token) (x : Parse α) (Q : α → Prop) : Prop :=
  Keeps (Parser.Amid known ts) (Diagnostic.Points known ts) x Q

/-! ## Tokens -/

theorem located_get : Located known ts get (Parser.Amid known ts) := keeps_get

theorem located_current : Located known ts current (· ∈ ts) :=
  keeps_bind located_get fun _ hp => keeps_pure hp.current

theorem located_fail {fault : Fault} {Q : α → Prop} : Located known ts (fail fault) Q :=
  keeps_bind located_current fun t ht => keeps_throw (.inl ⟨t, ht, rfl⟩)

theorem located_advance : Located known ts advance (· ∈ ts) := by
  refine keeps_bind located_current fun t ht => ?_
  refine keeps_bind (keeps_modify fun p hp => ?_) fun _ _ => keeps_pure ht
  exact ⟨p.stream.advance_suffix.trans hp.stream, hp.names⟩

theorem located_accept (kind : Token.Kind) :
    Located known ts (accept kind) fun o => ∀ t ∈ o, t ∈ ts := by
  refine keeps_bind located_current fun _ _ => ?_
  split
  · refine keeps_bind located_advance fun t ht => keeps_pure ?_
    intro u hu
    cases hu
    exact ht
  · exact keeps_pure nofun

theorem located_acceptDelimiter (text : String) :
    Located known ts (acceptDelimiter text) fun _ => True := by
  refine keeps_bind located_current fun _ _ => ?_
  split
  · exact keeps_bind located_advance fun _ _ => keeps_pure trivial
  · exact keeps_pure trivial

theorem located_acceptOperator (text : String) :
    Located known ts (acceptOperator text) fun _ => True := by
  refine keeps_bind located_current fun _ _ => ?_
  split
  · exact keeps_bind located_advance fun _ _ => keeps_pure trivial
  · exact keeps_pure trivial

theorem located_expect (kind : Token.Kind) (what : String) :
    Located known ts (expect kind what) (· ∈ ts) := by
  refine keeps_bind (located_accept kind) fun o ho => ?_
  cases o with
  | none => exact located_fail
  | some t => exact keeps_pure (ho t rfl)

theorem located_expectDelimiter (text : String) :
    Located known ts (expectDelimiter text) fun _ => True := by
  refine keeps_bind (located_acceptDelimiter text) fun b _ => ?_
  cases b with
  | false => exact located_fail
  | true => exact keeps_pure trivial

theorem located_expectEndOfStatement : Located known ts expectEndOfStatement fun _ => True :=
  keeps_bind (located_expect _ _) fun _ _ => keeps_pure trivial

theorem located_endHeader : Located known ts endHeader fun _ => True := by
  refine keeps_bind located_expectEndOfStatement fun _ _ => ?_
  refine keeps_bind located_current fun _ _ => ?_
  split
  · exact located_fail
  · exact keeps_pure trivial

/-! ## Frames -/

theorem located_reopenFrame {frame : Frame} (h : ∀ i ∈ frame, i.Sits known ts) :
    Located known ts (reopenFrame frame) fun _ => True :=
  keeps_modify fun _ hp => ⟨hp.stream, hp.names.reopen h⟩

theorem located_openFrame : Located known ts openFrame fun _ => True :=
  keeps_modify fun _ hp => ⟨hp.stream, hp.names.openFrame⟩

theorem located_closeFrame :
    Located known ts closeFrame fun frame => ∀ i ∈ frame, i.Sits known ts :=
  keeps_modifyGet fun _ hp => ⟨hp.names.close.1, hp.stream, hp.names.close.2⟩

theorem located_declare {i : Identifier} (h : Placed ts i.location) :
    Located known ts (declare i) fun _ => True := by
  refine keeps_bind located_get fun p hp => ?_
  split
  · next symbols hsymbols => exact keeps_set ⟨hp.stream, hp.names.declare? (.inl h) hsymbols⟩
  · exact keeps_throw (.inl h)

/-! ## Expressions and types -/

theorem located_liftExcept {x : Except Diagnostic α} {Q : α → Prop} (hok : ∀ a, x = .ok a → Q a)
    (herror : ∀ d, x = .error d → d.Points known ts) : Located known ts (liftExcept x) Q := by
  cases x with
  | ok a => exact keeps_pure (hok a rfl)
  | error d => exact keeps_throw (herror d rfl)

theorem located_typeOfName (ht : t ∈ ts) :
    Located known ts (liftExcept (typeOfName t)) fun _ => True := by
  refine located_liftExcept (fun _ _ => trivial) fun d hd => .inl ⟨t, ht, ?_⟩
  unfold typeOfName at hd
  split at hd
  · split at hd
    · cases hd
    · cases hd
      rfl
  · cases hd
    rfl

theorem located_dataType : Located known ts dataType fun result => Placed ts result.2 := by
  refine keeps_bind (located_expect _ _) fun t ht => ?_
  exact keeps_bind (located_typeOfName ht) fun _ _ => keeps_pure ⟨t, ht, rfl⟩

theorem located_expressionTree : Located known ts expressionTree (Node.Sits known ts) := by
  intro p hp
  have hstart : (Expression.start p.stream).Within known ts := ⟨hp.stream, nofun, nofun⟩
  have htree := Expression.inside_tree hp.names _ hstart
  unfold expressionTree
  cases hrun : Expression.tree p.symbols (.start p.stream) with
  | ok n e =>
    rw [hrun] at htree
    exact ⟨htree.1, htree.2.stream, hp.names⟩
  | error d e =>
    rw [hrun] at htree
    exact .inl htree

theorem located_expression : Located known ts expression (Node.Sits known ts) := by
  refine keeps_bind located_expressionTree fun n hn => ?_
  exact located_liftExcept hn.fold.1 fun d hd => .inl (hn.fold.2 d hd)

theorem located_condition (place : Location) :
    Located known ts (condition place) fun _ => True := by
  refine keeps_bind located_expression fun n hn => ?_
  have hchecked : Located known ts (liftExcept (n.checkBoolean place)) fun _ => True :=
    located_liftExcept (fun _ _ => trivial) fun d hd => hn.checkBoolean_error hd
  exact keeps_bind hchecked fun _ _ => keeps_pure trivial

theorem located_type? {n : Node} (hn : n.Sits known ts) :
    Located known ts (liftExcept n.type?) fun _ => True :=
  located_liftExcept (fun _ _ => trivial) fun _ hd => .inl (hn.type?_error hd)

/-! ## Declarations -/

theorem located_declarationHead :
    Located known ts declarationHead fun head => head.name ∈ ts ∧ Placed ts head.typeLocation := by
  refine keeps_bind (located_expect _ _) fun name hname => ?_
  refine keeps_bind (located_expectDelimiter _) fun _ _ => ?_
  refine keeps_bind (located_accept _) fun o ho => ?_
  cases o with
  | none => exact keeps_pure ⟨hname, name, hname, rfl⟩
  | some t =>
    have ht := ho t rfl
    exact keeps_bind (located_typeOfName ht) fun _ _ => keeps_pure ⟨hname, t, ht, rfl⟩

/-- A declaration stands where its name does. -/
def StandsIn (ts : List Token) (n : Node) : Prop := ∃ place, n.location? = some place ∧ Placed ts place

variable {head : DeclarationHead}

theorem located_declareValue (declared : Declared) (hname : head.name ∈ ts)
    (htype : Placed ts head.typeLocation) :
    Located known ts (declareValue head declared) (StandsIn ts) := by
  refine keeps_bind located_expression fun n hn => ?_
  have hchecked : Located known ts (liftExcept (n.typeAs head.type head.typeLocation)) fun _ => True :=
    located_liftExcept (fun _ _ => trivial) fun d hd => hn.typeAs_error htype hd
  refine keeps_bind hchecked fun type _ => ?_
  have hplace : Placed ts (declared.identifier head.name.text type head.name.location).location := by
    rw [declared.location_identifier]
    exact ⟨_, hname, rfl⟩
  exact keeps_bind (located_declare hplace) fun _ _ => keeps_pure ⟨_, rfl, _, hname, rfl⟩

theorem located_declareVariable (hname : head.name ∈ ts) (htype : Placed ts head.typeLocation) :
    Located known ts (declareVariable head) (StandsIn ts) := by
  refine keeps_bind (located_acceptOperator _) fun b _ => ?_
  split
  · exact located_declareValue .variable hname htype
  · split
    · exact located_fail
    · exact keeps_throw (.inl htype)
    · refine keeps_bind (located_declare ⟨_, hname, rfl⟩) fun _ _ => ?_
      exact keeps_pure ⟨_, rfl, _, hname, rfl⟩

theorem located_parameter : Located known ts parameter fun _ => True := by
  refine keeps_bind located_declarationHead fun head hhead => ?_
  refine keeps_bind (located_acceptDelimiter _) fun b _ => ?_
  split
  · exact (located_declareValue .constantVariable hhead.1 hhead.2).imp fun _ _ => trivial
  · exact (located_declareVariable hhead.1 hhead.2).imp fun _ _ => trivial

theorem located_parametersUpTo (n : Nat) : Located known ts (parametersUpTo n) fun _ => True := by
  induction n with
  | zero => exact located_fail
  | succ n ih =>
    refine keeps_bind located_get fun p _ => keeps_unless located_fail ?_
    refine keeps_bind located_parameter fun first _ => ?_
    refine keeps_bind (located_acceptDelimiter _) fun b _ => ?_
    split
    · exact keeps_bind ih fun _ _ => keeps_pure trivial
    · exact keeps_pure trivial

theorem located_parameters : Located known ts parameters fun _ => True := by
  refine keeps_bind (located_expectDelimiter _) fun _ _ => keeps_bind located_get fun p _ => ?_
  have hlist : ∀ ns : List Node, Located known ts (do
      expectDelimiter ")"
      return ns) fun _ => True :=
    fun ns => keeps_bind (located_expectDelimiter _) fun _ _ => keeps_pure trivial
  dsimp only
  split
  · exact keeps_bind (Q := fun _ => True) (keeps_pure trivial) fun ns _ => hlist ns
  · exact keeps_bind (located_parametersUpTo _) fun ns _ => hlist ns

theorem located_resultType (declared : DataType) :
    Located known ts (resultType declared) fun _ => True := by
  refine keeps_bind (located_acceptOperator _) fun b _ => ?_
  split
  · refine keeps_bind located_dataType fun result hresult => ?_
    obtain ⟨type, place⟩ := result
    exact keeps_unless (keeps_throw (.inl hresult)) (keeps_pure trivial)
  · exact keeps_pure trivial

section Blocks

variable {body : String → Parse Scope}
  (hbody : ∀ construct, Located known ts (body construct) fun _ => True)
include hbody

theorem located_declareFunction (hname : head.name ∈ ts) :
    Located known ts (declareFunction body head) (StandsIn ts) := by
  refine keeps_bind located_openFrame fun _ _ => keeps_bind located_parameters fun ns _ => ?_
  refine keeps_bind (located_resultType _) fun returns _ => ?_
  refine keeps_bind located_endHeader fun _ _ => keeps_bind located_closeFrame fun frame hframe => ?_
  have hfresh : Located known ts freshFunction fun _ => True :=
    keeps_modifyGet fun p hp => ⟨trivial, hp.stream, hp.names⟩
  refine keeps_bind hfresh fun id _ => ?_
  refine keeps_bind (located_declare ⟨_, hname, rfl⟩) fun _ _ => ?_
  refine keeps_bind (located_reopenFrame hframe) fun _ _ => keeps_bind (hbody _) fun scope _ => ?_
  have hdefine : ∀ f, Located known ts (define f) fun _ => True :=
    fun f => keeps_modify fun p hp => ⟨hp.stream, hp.names⟩
  exact keeps_bind (hdefine _) fun _ _ => keeps_pure ⟨_, rfl, _, hname, rfl⟩

theorem located_declaration : Located known ts (declaration body) (StandsIn ts) := by
  refine keeps_bind located_declarationHead fun head hhead => ?_
  refine keeps_bind (located_acceptDelimiter _) fun b _ => ?_
  split
  · refine keeps_bind located_get fun p _ => ?_
    split
    · exact located_declareFunction hbody hhead.1
    · exact located_declareValue .constant hhead.1 hhead.2
  · exact located_declareVariable hhead.1 hhead.2

theorem located_declarationStatement :
    Located known ts (declarationStatement body) fun _ => True := by
  refine keeps_bind (located_declaration hbody) fun n _ => ?_
  split
  · exact keeps_bind located_expectEndOfStatement fun _ _ => keeps_pure trivial
  · exact keeps_pure trivial

/-! ## Branches and loops -/

theorem located_framedBody (construct : String) :
    Located known ts (framedBody body construct) fun _ => True :=
  keeps_bind located_openFrame fun _ _ => hbody construct

theorem located_alternative : Located known ts (alternative body) fun _ => True := by
  refine keeps_bind located_get fun p _ => ?_
  dsimp only
  split
  · refine keeps_bind located_advance fun _ _ => keeps_bind located_endHeader fun _ _ => ?_
    exact keeps_bind (located_framedBody hbody _) fun _ _ => keeps_pure trivial
  · exact keeps_pure trivial

theorem located_branch : Located known ts (branch body) fun _ => True := by
  refine keeps_bind located_advance fun t _ => keeps_bind (located_condition _) fun test _ => ?_
  refine keeps_bind located_endHeader fun _ _ => ?_
  refine keeps_bind (located_framedBody hbody _) fun consequence _ => ?_
  exact keeps_bind (located_alternative hbody) fun _ _ => keeps_pure trivial

theorem located_whileLoop : Located known ts (whileLoop body) fun _ => True := by
  refine keeps_bind located_advance fun t _ => keeps_bind (located_condition _) fun test _ => ?_
  refine keeps_bind located_endHeader fun _ _ => ?_
  exact keeps_bind (located_framedBody hbody _) fun _ _ => keeps_pure trivial

theorem located_loopInit : Located known ts (loopInit body t) fun _ => True := by
  refine keeps_bind located_get fun p _ => ?_
  dsimp only
  split
  · refine keeps_bind (located_declaration hbody) fun n hn => ?_
    split
    · exact keeps_pure trivial
    · obtain ⟨place, hplace, hplaced⟩ := hn
      refine keeps_throw (.inl ?_)
      rw [Node.locationOr, hplace]
      exact hplaced
  · split
    · exact keeps_pure trivial
    · exact located_fail

theorem located_threePartLoop : Located known ts (threePartLoop body) fun _ => True := by
  have htest : ∀ t, Located known ts (loopCondition t) fun _ => True := by
    intro t
    refine keeps_bind located_current fun _ _ => ?_
    split
    · exact keeps_pure trivial
    · exact keeps_bind (located_condition _) fun _ _ => keeps_pure trivial
  have hincrement : Located known ts loopIncrement fun _ => True := by
    refine keeps_bind located_current fun _ _ => ?_
    split
    · exact keeps_pure trivial
    · refine keeps_bind located_expression fun n hn => ?_
      exact keeps_bind (located_type? hn) fun _ _ => keeps_pure trivial
  refine keeps_bind located_advance fun t _ => keeps_bind located_openFrame fun _ _ => ?_
  refine keeps_bind (located_loopInit hbody) fun init _ => ?_
  refine keeps_bind (located_expectDelimiter _) fun _ _ => keeps_bind (htest t) fun test _ => ?_
  refine keeps_bind (located_expectDelimiter _) fun _ _ => keeps_bind hincrement fun increment _ => ?_
  refine keeps_bind located_endHeader fun _ _ => ?_
  exact keeps_bind (hbody _) fun _ _ => keeps_pure trivial

theorem located_rangeLoop : Located known ts (rangeLoop body) fun _ => True := by
  have hname : Located known ts loopName fun o => ∀ t ∈ o, t ∈ ts := by
    refine keeps_bind located_get fun p _ => ?_
    split
    · refine keeps_bind located_advance fun t ht => keeps_bind located_advance fun _ _ => ?_
      refine keeps_pure fun u hu => ?_
      cases hu
      exact ht
    · exact keeps_pure nofun
  refine keeps_bind located_advance fun t ht => keeps_bind hname fun name hname => ?_
  refine keeps_bind located_expression fun range hrange => ?_
  refine keeps_bind (located_type? hrange) fun type _ => keeps_bind located_endHeader fun _ _ => ?_
  have hdeclared : ∀ text place, Placed ts place → Located known ts (do
      openFrame
      declare (Declared.variable.identifier text type place)
      return Node.rangeLoop (.binary .assignment (Declared.variable.identifier text type place).toNode range
        place) (← body "for") t.location) fun _ => True := by
    intro text place hplace
    refine keeps_bind located_openFrame fun _ _ => keeps_bind (located_declare hplace) fun _ _ => ?_
    exact keeps_bind (hbody _) fun _ _ => keeps_pure trivial
  cases name with
  | none => exact hdeclared _ _ ⟨t, ht, rfl⟩
  | some n => exact hdeclared _ _ ⟨n, hname n rfl, rfl⟩

theorem located_keywordStatement (keyword : Keyword) :
    Located known ts (keywordStatement body keyword) fun _ => True := by
  refine keeps_bind located_get fun p _ => keeps_unless located_fail ?_
  cases keyword with
  | ifThen => exact located_branch hbody
  | whileLoop => exact located_whileLoop hbody
  | orElse => exact located_fail
  | forLoop =>
    refine keeps_bind located_get fun p _ => ?_
    split
    · exact located_threePartLoop hbody
    · exact located_rangeLoop hbody

theorem located_statement : Located known ts (statement body) fun _ => True := by
  refine keeps_bind located_get fun p _ => ?_
  dsimp only
  split
  · exact located_declarationStatement hbody
  · split
    · exact located_keywordStatement hbody _
    · refine keeps_bind located_expression fun n hn => keeps_bind (located_type? hn) fun _ _ => ?_
      exact keeps_bind located_expectEndOfStatement fun _ _ => keeps_pure trivial

end Blocks

/-! ## Blocks -/

theorem located_lines {statement : Parse Node} {nested : Parse Scope} {level : Nat}
    (hstatement : Located known ts statement fun _ => True)
    (hnested : Located known ts nested fun _ => True) (n : Nat) (before : List Node) :
    Located known ts (lines statement nested level n before) fun _ => True := by
  induction n generalizing before with
  | zero => exact located_fail
  | succ n ih =>
    refine keeps_bind located_current fun t _ => ?_
    split
    · exact keeps_pure trivial
    · split
      · exact keeps_bind hstatement fun node _ => ih (node :: before)
      · refine keeps_bind located_openFrame fun _ _ => keeps_bind hnested fun scope _ => ?_
        exact ih (.scope scope :: before)
      · exact keeps_pure trivial
      · exact located_fail

theorem located_bodyOf {block : Nat → Parse Scope}
    (hblock : ∀ level, Located known ts (block level) fun _ => True) (construct : String) :
    Located known ts (bodyOf block construct) fun _ => True := by
  exact keeps_bind located_get fun p _ => keeps_unless located_fail (hblock _)

theorem located_blockUpTo (depth level : Nat) :
    Located known ts (blockUpTo depth level) fun _ => True := by
  induction depth generalizing level with
  | zero => exact located_fail
  | succ depth ih =>
    refine keeps_bind located_get fun p hp => keeps_bind (keeps_set ⟨hp.stream, hp.names⟩) fun _ _ => ?_
    refine keeps_bind (located_lines (located_statement (located_bodyOf ih)) (ih _) _ _) fun ns _ => ?_
    refine keeps_bind (keeps_modify fun q hq => ⟨hq.stream, hq.names⟩) fun _ _ => ?_
    exact keeps_bind located_closeFrame fun _ _ => keeps_pure trivial

theorem located_body (construct : String) : Located known ts (body construct) fun _ => True :=
  located_bodyOf (fun _ => keeps_bind located_get fun _ _ => located_blockUpTo _ _) construct

end Parse

/-- A statement fails at one of its tokens, or rejects the type of a name where that was declared before. -/
theorem statement_points {p p' : Parser} {d : Diagnostic}
    (h : Parse.statement Parse.body p = .error d p') :
    d.Points p.symbols.frames.flatten p.stream.tokens := by
  have hamid : p.Amid p.symbols.frames.flatten p.stream.tokens :=
    ⟨List.suffix_rfl, fun frame hframe i hi => .inr (List.mem_flatten.mpr ⟨frame, hframe, hi⟩)⟩
  exact (Parse.located_statement Parse.located_body).error hamid h

/-- The condition `x` is a number: the fault is found in the second line, and points to the first one. -/
theorem rejected_condition :
    ∃ tokens n p d p', tokenize "x := 1\nif x\n    y := 2\n" "" = .ok tokens ∧
      Parse.statement Parse.body (.atStart tokens) = .ok n p ∧
      Parse.statement Parse.body p = .error d p' ∧
      ∀ t ∈ p.stream.tokens, t.location ≠ d.location := by
  have hrun : (match tokenize "x := 1\nif x\n    y := 2\n" "" with
      | .ok tokens =>
        match Parse.statement Parse.body (.atStart tokens) with
        | .ok _ p =>
          match Parse.statement Parse.body p with
          | .ok .. => false
          | .error d _ => decide (∀ t ∈ p.stream.tokens, t.location ≠ d.location)
        | .error .. => false
      | .error _ => false) = true := by
    decide +kernel
  split at hrun
  · next tokens htokens =>
    split at hrun
    · next n p hfirst =>
      split at hrun
      · cases hrun
      · next d p' hsecond =>
        exact ⟨tokens, n, p, d, p', htokens, hfirst, hsecond, of_decide_eq_true hrun⟩
    · cases hrun
  · cases hrun

theorem statement_points_condition :
    ∃ tokens n p d p', tokenize "x := 1\nif x\n    y := 2\n" "" = .ok tokens ∧
      Parse.statement Parse.body (.atStart tokens) = .ok n p ∧
      Parse.statement Parse.body p = .error d p' ∧
      d.Points p.symbols.frames.flatten p.stream.tokens := by
  obtain ⟨tokens, n, p, d, p', htokens, hfirst, hsecond, -⟩ := rejected_condition
  exact ⟨tokens, n, p, d, p', htokens, hfirst, hsecond, statement_points hsecond⟩

/-- No token from the `if` on stands where the fault points. -/
theorem condition_points_back :
    ∃ tokens n p d p', tokenize "x := 1\nif x\n    y := 2\n" "" = .ok tokens ∧
      Parse.statement Parse.body (.atStart tokens) = .ok n p ∧
      Parse.statement Parse.body p = .error d p' ∧
      ¬ Placed p.stream.tokens d.location := by
  obtain ⟨tokens, n, p, d, p', htokens, hfirst, hsecond, hnowhere⟩ := rejected_condition
  refine ⟨tokens, n, p, d, p', htokens, hfirst, hsecond, ?_⟩
  rintro ⟨t, ht, hplace⟩
  exact hnowhere t ht hplace

end Offside
