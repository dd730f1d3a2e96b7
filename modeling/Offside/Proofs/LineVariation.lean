import Offside.Proofs.ExpressionVariation

/-!
# Two runs over a line

What is read of a line in the two runs: the heads and the values of declarations, parameters, the types of
results, and the parts of a loop.
-/

namespace Offside

set_option autoImplicit false

open Execution

theorem TokenStream.of_startsDeclaration {s : TokenStream} (h : s.startsDeclaration) :
    s.current.kind = .identifier ∧ s.advance.current.isDelimiter ":" := by
  rw [startsDeclaration, Bool.and_eq_true, beq_iff_eq] at h
  obtain ⟨hk, hcolon⟩ := h
  refine ⟨hk, ?_⟩
  unfold advance
  split at hcolon
  · cases hcolon
  · rw [if_neg (by simp [hk])]
    exact hcolon

structure DeclarationHead.Like (moves : Location → Location → Prop) (head head' : DeclarationHead) :
    Prop where
  text : head'.name.text = head.name.text
  place : moves head.name.location head'.name.location
  type : head'.type = head.type
  typePlace : moves head.typeLocation head'.typeLocation

namespace Variation

variable {v : Variation} {p q : Parser} {head head' : DeclarationHead} {l l' : Location} {t u : Token}
  {n m : Nat}

theorem Pair.identifier (h : v.Pair t u) (hk : t.kind = .identifier) :
    u.text = t.text ∧ v.words t.location u.location := by
  have hw : t.endsStatement = false := by simp [Token.endsStatement, hk]
  exact ⟨h.text hw, h.word (.inl hw)⟩

namespace Inside

/-! ## Declarations -/

theorem declarationHead (h : v.Inside p q) :
    v.Inline (DeclarationHead.Like v.words) (Parse.declarationHead p) (Parse.declarationHead q) := by
  refine (h.expect .identifier nofun nofun _).bind fun name name' p q ⟨hname, hk⟩ h => ?_
  obtain ⟨htext, hplace⟩ := hname.identifier hk
  refine (h.expectDelimiter ":").bind fun _ _ p q _ h => ?_
  refine (h.accept .identifier nofun nofun).bind fun a b p q hab h => ?_
  cases hab with
  | none => exact .ok ⟨⟨htext, hplace, rfl, hplace⟩, h⟩
  | some hab =>
    obtain ⟨ht, hk⟩ := hab
    refine (h.liftExcept (ht.typeOfName hk)).bind fun type type' p q htype h => ?_
    subst htype
    exact .ok ⟨⟨htext, hplace, rfl, (ht.identifier hk).2⟩, h⟩

theorem declareValue (h : v.Inside p q) (hh : head.Like v.words head') (declared : Declared) :
    v.Inline (Node.Like v.words) (Parse.declareValue head declared p)
      (Parse.declareValue head' declared q) := by
  refine h.expression.bind fun value value' p q hvalue h => ?_
  rw [hh.type, hh.text]
  refine (h.liftExcept (Node.typeAs_like hvalue _ hh.typePlace)).bind fun type type' p q heq h => ?_
  subst heq
  have hi := declared.like head.name.text type hh.place
  exact (h.declare hi).bind fun _ _ _ _ _ h => .ok ⟨.binary hi.toNode hvalue hh.place, h⟩

theorem declareVariable (h : v.Inside p q) (hh : head.Like v.words head') :
    v.Inline (Node.Like v.words) (Parse.declareVariable head p) (Parse.declareVariable head' q) := by
  refine (h.acceptOperator "=").bind fun a b p q hab h => ?_
  subst hab
  cases a with
  | true => exact h.declareValue hh .variable
  | false =>
    have hi (type : DataType) := Declared.variable.like head.name.text type hh.place
    rw [hh.type, hh.text]
    generalize head.type = type
    cases type with
    | auto => exact h.fail _
    | void => exact throw_agree ⟨hh.typePlace⟩
    | _ => exact (h.declare (hi _)).bind fun _ _ _ _ _ h => .ok ⟨(hi _).toNode, h⟩

theorem parameter (h : v.Inside p q) :
    v.Inline (Node.Like v.words) (Parse.parameter p) (Parse.parameter q) := by
  refine h.declarationHead.bind fun head head' p q hh h => ?_
  refine (h.acceptDelimiter ":").bind fun a b p q hab h => ?_
  subst hab
  cases a with
  | true => exact h.declareValue hh .constantVariable
  | false => exact h.declareVariable hh

theorem parametersUpTo (h : v.Inside p q) (hbounds : v.Bounds n m) :
    v.Inline (List.Forall₂ (Node.Like v.words)) (Parse.parametersUpTo n p)
      (Parse.parametersUpTo m q) := by
  induction n generalizing m p q with
  | zero =>
    rcases hbounds.zero with hgoes | ⟨-, rfl⟩
    · exact .missing hgoes rfl
    · exact h.fail _
  | succ n ih =>
    obtain ⟨m, rfl, hfewer⟩ := hbounds.succ
    unfold Parse.parametersUpTo
    rw [get_bind, get_bind, h.streams.startsDeclaration]
    split
    · exact h.fail _
    · refine h.parameter.bind fun first first' p q hfirst h => ?_
      refine (h.acceptDelimiter ",").bind fun a b p q hab h => ?_
      subst hab
      cases a with
      | true => exact (ih h hfewer).bind fun _ _ _ _ hmore h => .ok ⟨.cons hfirst hmore, h⟩
      | false => exact .ok ⟨.cons hfirst .nil, h⟩

theorem parameters (h : v.Inside p q) :
    v.Inline (List.Forall₂ (Node.Like v.words)) (Parse.parameters p) (Parse.parameters q) := by
  refine (h.expectDelimiter "(").bind fun _ _ p q _ h => ?_
  rw [get_bind, get_bind, h.streams.current.isDelimiter]
  split
  · exact (h.expectDelimiter ")").bind fun _ _ _ _ _ h => .ok ⟨.nil, h⟩
  · refine (h.parametersUpTo h.streams.shares.length).bind fun ns ms p q hns h => ?_
    exact (h.expectDelimiter ")").bind fun _ _ _ _ _ h => .ok ⟨hns, h⟩

theorem resultType (h : v.Inside p q) (declared : DataType) :
    v.Inline Eq (Parse.resultType declared p) (Parse.resultType declared q) := by
  refine (h.acceptOperator "->").bind fun a b p q hab h => ?_
  subst hab
  cases a with
  | true =>
    refine h.dataType.bind fun written written' p q ⟨htype, hplace⟩ h => ?_
    obtain ⟨type, l⟩ := written
    obtain ⟨type', l'⟩ := written'
    subst htype
    dsimp only
    split
    · exact throw_agree ⟨hplace⟩
    · exact .ok ⟨rfl, h⟩
  | false => exact .ok ⟨rfl, h⟩

/-! ## Conditions and the heads of loops -/

theorem condition (h : v.Inside p q) (hl : v.words l l') :
    v.Inline (Node.Like v.words) (Parse.condition l p) (Parse.condition l' q) := by
  refine h.expression.bind fun node node' p q hnode h => ?_
  exact (h.liftExcept (Node.checkBoolean_like hnode hl)).bind fun _ _ _ _ _ h => .ok ⟨hnode, h⟩

theorem loopCondition (h : v.Inside p q) (hl : v.words t.location u.location) :
    v.Inline (Option.Rel (Node.Like v.words)) (Parse.loopCondition t p) (Parse.loopCondition u q) := by
  unfold Parse.loopCondition
  rw [Parse.current_bind, Parse.current_bind, h.streams.current.isDelimiter]
  split
  · exact .ok ⟨.none, h⟩
  · exact (h.condition hl).bind fun _ _ _ _ hnode h => .ok ⟨.some hnode, h⟩

theorem loopIncrement (h : v.Inside p q) :
    v.Inline (Option.Rel (Node.Like v.words)) (Parse.loopIncrement p) (Parse.loopIncrement q) := by
  unfold Parse.loopIncrement
  rw [Parse.current_bind, Parse.current_bind, h.streams.current.kind]
  split
  · exact .ok ⟨.none, h⟩
  · refine h.expression.bind fun node node' p q hnode h => ?_
    exact (h.liftExcept (Node.type?_like hnode)).bind fun _ _ _ _ _ h => .ok ⟨.some hnode, h⟩

theorem loopName (h : v.Inside p q) :
    v.Inline (Option.Rel fun t u => u.text = t.text ∧ v.words t.location u.location)
      (Parse.loopName p) (Parse.loopName q) := by
  unfold Parse.loopName
  rw [get_bind, get_bind, h.streams.startsDeclaration]
  cases hd : p.stream.startsDeclaration with
  | false => exact .ok ⟨.none, h⟩
  | true =>
    obtain ⟨hk, hcolon⟩ := TokenStream.of_startsDeclaration hd
    have hadvanced := h.advanced fun _ => by simp [Token.endsStatement, hk]
    have hbehind := hadvanced.advanced fun _ => Parse.endsStatement_of_isDelimiter hcolon
    exact .ok ⟨.some (h.streams.current.identifier hk), hbehind⟩

end Inside

end Variation

end Offside
