import Offside.Proofs.ExpressionTokens
import Offside.Proofs.FrameBalance
import Offside.Proofs.TopLevelComma

/-!
# Looking ahead

Which loop a `for` begins, and whether a constant or a function is declared, is decided by a look at the
tokens ahead. The look is never wrong: where one of the two readings succeeds it is the one that is chosen,
whatever the tokens are and however the blocks are read.
-/

namespace Offside

set_option autoImplicit false

open Execution TokenStream

namespace TokenStream

variable {s : TokenStream}

theorem startsDeclaration_eq (hs : s.EndsAhead) :
    s.startsDeclaration = (s.current.kind == .identifier && s.advance.current.isDelimiter ":") := by
  unfold startsDeclaration
  cases hk : s.current.kind == .identifier with
  | false => rfl
  | true =>
    have htokens := tokens_advance hs (by simp [eq_of_beq hk])
    rw [(List.cons.inj htokens).2]
    rfl

theorem startsParameters_eq (hs : s.EndsAhead) :
    s.startsParameters = (s.current.isDelimiter "(" && (s.advance.current.isDelimiter ")" ||
      s.advance.current.kind == .identifier && s.advance.advance.current.isDelimiter ":")) := by
  unfold startsParameters
  cases hd : s.current.isDelimiter "(" with
  | false =>
    obtain ⟨position, current, _ | ⟨next, rest⟩⟩ := s
    · rfl
    · simp only [tokens, show current.isDelimiter "(" = false from hd, Bool.false_and]
  | true =>
    have htokens := tokens_advance hs (by simp [Token.kind_of_isDelimiter hd])
    have hnext := startsDeclaration_eq hs.advance
    unfold startsDeclaration at hnext
    rw [← hnext, htokens]
    simp only [tokens, hd]

end TokenStream

namespace Parse

variable {body : String → Parse Scope} {p p' : Parser} {n : Node}

/-! ## A look is a run that is taken back -/

/-- Moves on as `scan` does, and comes back. -/
def lookAhead {α : Type} (scan : Parse α) : Parse α := do
  let bookmark := (← get).stream
  let a ← scan
  modify fun p => { p with stream := bookmark }
  return a

/-- Moves on to the first comma outside of all parentheses, or to the end of the statement. -/
def seekComma : Nat → Nat → Parse Bool
  | 0, _ => return false
  | bound + 1, depth => do
    if (← current).endsStatement then return false
    else
      let t ← advance
      if t.isDelimiter "(" then seekComma bound (depth + 1)
      else if t.isDelimiter ")" then seekComma bound (depth - 1)
      else if t.isDelimiter "," && depth == 0 then return true
      else seekComma bound depth

def seekThreeParts : Parse Bool := do
  let _ ← advance
  let s := (← get).stream
  if s.current.isDelimiter "," then return true
  else if s.startsDeclaration then seekComma s.tokens.length 0
  else return false

def seekParameters : Parse Bool := do
  if ← acceptDelimiter "(" then
    if ← acceptDelimiter ")" then return true
    else
      match ← accept .identifier with
      | some _ => acceptDelimiter ":"
      | none => return false
  else return false

/-- The scan answers `a`, and has changed nothing but the place in the stream. -/
def Answers {α : Type} (scan : Parse α) (p : Parser) (a : α) : Prop :=
  ∃ s, scan p = .ok a { p with stream := s }

theorem lookAhead_eq {α : Type} {scan : Parse α} {a : α} (h : Answers scan p a) :
    lookAhead scan p = .ok a p := by
  obtain ⟨s, hs⟩ := h
  unfold lookAhead
  rw [get_bind, bind_apply, hs]
  rfl

theorem seekComma_answers {bound depth : Nat} (hp : p.stream.EndsAhead)
    (hb : p.stream.tokens.length ≤ bound) :
    Answers (seekComma bound depth) p (hasComma depth p.stream.tokens) := by
  induction bound generalizing p depth with
  | zero => cases hb
  | succ bound ih =>
    rw [TokenStream.tokens, hasComma]
    unfold seekComma Answers
    rw [current_bind]
    cases hend : p.stream.current.endsStatement with
    | true => exact ⟨p.stream, rfl⟩
    | false =>
      have hk := Token.kind_ne_endOfFile hend
      have htokens := tokens_advance hp hk
      have hrest : p.stream.rest = p.stream.advance.tokens := (List.cons.inj htokens).2
      rw [htokens] at hb
      have hmore : ∀ depth, Answers (seekComma bound depth) { p with stream := p.stream.advance }
          (hasComma depth p.stream.rest) := by
        intro depth
        rw [hrest]
        exact ih hp.advance (Nat.le_of_succ_le_succ hb)
      have hadvance : ∀ f : Token → Parse Bool,
          (advance >>= f) p = f p.stream.current { p with stream := p.stream.advance } := fun _ => rfl
      simp only [Bool.false_eq_true, if_false, hadvance]
      split
      · exact hmore _
      · split
        · exact hmore _
        · split
          · exact ⟨p.stream.advance, rfl⟩
          · exact hmore _

theorem lookAhead_seekThreeParts (hp : p.stream.EndsAhead) :
    lookAhead seekThreeParts p = .ok p.stream.startsThreePartLoop p := by
  refine lookAhead_eq ?_
  have hcomma : Answers (seekComma p.stream.advance.tokens.length 0)
      { p with stream := p.stream.advance } (hasComma 0 p.stream.advance.tokens) :=
    seekComma_answers hp.advance (Nat.le_refl _)
  have hmoves : seekThreeParts p = (if p.stream.advance.current.isDelimiter "," then pure true
      else if p.stream.advance.startsDeclaration then seekComma p.stream.advance.tokens.length 0
      else pure false : Parse Bool) { p with stream := p.stream.advance } := rfl
  unfold startsThreePartLoop
  change Answers _ p (p.stream.advance.current.isDelimiter "," ||
    p.stream.advance.startsDeclaration && hasComma 0 p.stream.advance.tokens)
  unfold Answers
  rw [hmoves]
  cases p.stream.advance.current.isDelimiter "," with
  | true => exact ⟨p.stream.advance, rfl⟩
  | false =>
    cases p.stream.advance.startsDeclaration with
    | true => exact hcomma
    | false => exact ⟨p.stream.advance, rfl⟩

theorem lookAhead_seekParameters (hp : p.stream.EndsAhead) :
    lookAhead seekParameters p = .ok p.stream.startsParameters p := by
  refine lookAhead_eq ?_
  rw [startsParameters_eq hp]
  unfold Answers seekParameters
  rw [bind_apply, acceptDelimiter_apply]
  cases p.stream.current.isDelimiter "(" with
  | false => exact ⟨p.stream, rfl⟩
  | true =>
    simp only [if_true, bind_apply, acceptDelimiter_apply]
    cases p.stream.advance.current.isDelimiter ")" with
    | true => exact ⟨p.stream.advance.advance, rfl⟩
    | false =>
      simp only [Bool.false_eq_true, if_false, bind_apply, accept_apply]
      by_cases hk : p.stream.advance.current.kind = .identifier
      · simp only [hk, if_true, acceptDelimiter_apply]
        cases p.stream.advance.advance.current.isDelimiter ":" with
        | true => exact ⟨p.stream.advance.advance.advance, rfl⟩
        | false => exact ⟨p.stream.advance.advance, rfl⟩
      · simp only [hk, if_false]
        exact ⟨p.stream.advance, by simp [hk, pure_apply]⟩

end Parse

/-- The parser has read a part of a line, which hides from the search for a comma what it has of them. -/
structure Parser.Divides (p p' : Parser) : Prop where
  endsAhead : p'.stream.EndsAhead
  hides : hasComma 0 p.stream.tokens = hasComma 0 p'.stream.tokens

theorem Parser.Divides.trans {p p₁ p' : Parser} (h : p.Divides p₁) (h' : p₁.Divides p') :
    p.Divides p' :=
  ⟨h'.endsAhead, h.hides.trans h'.hides⟩

namespace Parse

variable {body : String → Parse Scope} {p p' : Parser} {n : Node}

/-! ## What stands in front of a comma -/

theorem advance_divides (hp : p.stream.EndsAhead) (ht : IsFiller p.stream.current) :
    p.Divides { p with stream := p.stream.advance } := by
  have hk := Token.kind_ne_endOfFile ht.word
  refine ⟨hp.advance, ?_⟩
  rw [tokens_advance hp hk]
  exact Hides.cons ht .nil 0 _ (Nat.le_refl _)

theorem hasComma_of_comma (h : p.stream.current.isDelimiter ",") :
    hasComma 0 p.stream.tokens = true := by
  have hopening : ¬ p.stream.current.isDelimiter "(" :=
    fun h' => absurd (Token.isDelimiter_inj h h') (by decide)
  have hclosing : ¬ p.stream.current.isDelimiter ")" :=
    fun h' => absurd (Token.isDelimiter_inj h h') (by decide)
  rw [TokenStream.tokens, hasComma, endsStatement_of_isDelimiter h, if_neg hopening, if_neg hclosing, h]
  rfl

theorem hasComma_of_end (h : p.stream.current.endsStatement) :
    hasComma 0 p.stream.tokens = false := by
  rw [TokenStream.tokens, hasComma, if_pos h]

/-- An expression begins with a token of its own, and hides its commas. -/
theorem expression_divides (hp : p.stream.EndsAhead) (h : expression p = .ok n p') :
    p.Divides p' ∧ ¬ Draft.EndsBefore 0 p.stream.current := by
  obtain ⟨m, p₁, hm, h₂⟩ := bind_eq_ok.mp h
  obtain ⟨-, rfl⟩ := liftExcept_ok h₂
  unfold expressionTree at hm
  split at hm
  · next htree =>
    cases hm
    obtain ⟨⟨hends, hhides, -⟩, hclosed⟩ := Expression.tree_ends hp htree
    rw [hclosed] at hhides
    exact ⟨⟨hends, hhides⟩, Expression.tree_begins htree⟩
  · cases hm

theorem declarationHead_divides (hp : p.stream.EndsAhead) {head : DeclarationHead}
    (h : declarationHead p = .ok head p') : p.Divides p' := by
  obtain ⟨name, p₁, hname, r₁⟩ := bind_eq_ok.mp h
  have h₁ := expect_ok hname
  rw [accept_apply] at h₁
  split at h₁
  case isFalse => cases h₁
  next hk =>
  cases h₁
  have hd₁ := advance_divides hp (.of_identifier hk)
  obtain ⟨_, p₂, hcolon, r₂⟩ := bind_eq_ok.mp r₁
  have h₂ := expectDelimiter_ok hcolon
  rw [acceptDelimiter_apply] at h₂
  split at h₂
  case isFalse => cases h₂
  next hc =>
  cases h₂
  have hd₂ := hd₁.trans (advance_divides hd₁.endsAhead (.of_colon hc))
  obtain ⟨o, p₃, ho, r₃⟩ := bind_eq_ok.mp r₂
  have hd₃ : p.Divides p₃ := by
    rw [accept_apply] at ho
    split at ho
    · next hk' =>
      cases ho
      exact hd₂.trans (advance_divides hd₂.endsAhead (.of_identifier hk'))
    · cases ho
      exact hd₂
  cases o with
  | none =>
    cases r₃
    exact hd₃
  | some t =>
    obtain ⟨type, p₄, htype, r₄⟩ := bind_eq_ok.mp r₃
    obtain ⟨-, rfl⟩ := liftExcept_ok htype
    cases r₄
    exact hd₃

theorem declareValue_divides (hp : p.stream.EndsAhead) {head : DeclarationHead}
    {declared : Declared} (h : declareValue head declared p = .ok n p') : p.Divides p' := by
  obtain ⟨value, p₁, hvalue, r₁⟩ := bind_eq_ok.mp h
  have hd := (expression_divides hp hvalue).1
  obtain ⟨type, p₂, hlift, r₂⟩ := bind_eq_ok.mp r₁
  obtain ⟨-, rfl⟩ := liftExcept_ok hlift
  obtain ⟨_, p₃, hdeclare, r₃⟩ := bind_eq_ok.mp r₂
  obtain ⟨_, -, hpasses⟩ := declare_ok hdeclare
  cases r₃
  have htokens : p₂.stream.tokens = p'.stream.tokens := hpasses.tokens
  refine ⟨?_, hd.hides.trans (congrArg (hasComma 0) htokens)⟩
  have hends := hd.endsAhead
  rwa [EndsAhead, htokens] at hends

/-- A function begins with its parameters. -/
theorem declareFunction_begins {head : DeclarationHead}
    (h : declareFunction body head p = .ok n p') :
    isFunction n ∧ ∃ ns p₁ p₂, p₁.stream = p.stream ∧ parameters p₁ = .ok ns p₂ := by
  obtain ⟨_, p₁, hopen, r₁⟩ := bind_eq_ok.mp h
  cases hopen
  obtain ⟨ns, p₂, hns, r₂⟩ := bind_eq_ok.mp r₁
  refine ⟨?_, ns, { p with symbols := p.symbols.openFrame }, p₂, rfl, hns⟩
  obtain ⟨_, _, -, r₃⟩ := bind_eq_ok.mp r₂
  obtain ⟨_, _, -, r₄⟩ := bind_eq_ok.mp r₃
  obtain ⟨_, _, -, r₅⟩ := bind_eq_ok.mp r₄
  obtain ⟨_, _, -, r₆⟩ := bind_eq_ok.mp r₅
  obtain ⟨_, _, -, r₇⟩ := bind_eq_ok.mp r₆
  obtain ⟨_, _, -, r₈⟩ := bind_eq_ok.mp r₇
  obtain ⟨_, _, -, r₉⟩ := bind_eq_ok.mp r₈
  obtain ⟨_, _, -, r₁₀⟩ := bind_eq_ok.mp r₉
  cases r₁₀
  rfl

theorem declareValue_node {head : DeclarationHead} {declared : Declared}
    (h : declareValue head declared p = .ok n p') :
    ∃ type value, n = .binary .assignment
      (declared.identifier head.name.text type head.name.location).toNode value head.name.location := by
  obtain ⟨value, _, -, r₁⟩ := bind_eq_ok.mp h
  obtain ⟨type, _, -, r₂⟩ := bind_eq_ok.mp r₁
  obtain ⟨_, _, -, r₃⟩ := bind_eq_ok.mp r₂
  cases r₃
  exact ⟨type, value, rfl⟩

/-- A variable that is declared with a value is declared on one line. -/
theorem declareVariable_divides (hp : p.stream.EndsAhead) {head : DeclarationHead}
    (h : declareVariable head p = .ok n p') (hn : initializesVariable n) : p.Divides p' := by
  obtain ⟨b, p₁, hb, r₁⟩ := bind_eq_ok.mp h
  cases b with
  | true =>
    rw [acceptOperator_apply] at hb
    split at hb
    · next ho =>
      cases hb
      have hd := advance_divides hp (.of_isOperator ho)
      exact hd.trans (declareValue_divides hd.endsAhead r₁)
    · cases hb
  | false =>
    exfalso
    simp only [Bool.false_eq_true, if_false] at r₁
    cases htype : head.type with
    | auto | void =>
      simp only [htype] at r₁
      cases r₁
    | _ =>
      simp only [htype] at r₁
      obtain ⟨_, _, -, r₂⟩ := bind_eq_ok.mp r₁
      cases r₂
      cases hn

/-- Behind a second colon there is a function or a constant, so a variable has but one. -/
theorem declaration_divides (hp : p.stream.EndsAhead) (h : declaration body p = .ok n p')
    (hn : initializesVariable n) : p.Divides p' := by
  obtain ⟨head, p₁, hhead, r₁⟩ := bind_eq_ok.mp h
  have hd₁ := declarationHead_divides hp hhead
  obtain ⟨b, p₂, hb, r₂⟩ := bind_eq_ok.mp r₁
  cases b with
  | true =>
    exfalso
    simp only [if_true] at r₂
    rw [get_bind] at r₂
    split at r₂
    · have hf := (declareFunction_begins r₂).1
      cases n <;> first | cases hn | cases hf
    · obtain ⟨type, value, rfl⟩ := declareValue_node r₂
      cases hn
  | false =>
    obtain rfl := acceptDelimiter_false hb
    exact hd₁.trans (declareVariable_divides hd₁.endsAhead r₂ hn)

/-! ## The two loops -/

theorem loopInit_looks (hp : p.stream.EndsAhead) {t : Token} {init : Option Node}
    (h : loopInit body t p = .ok init p') (hcomma : p'.stream.current.isDelimiter ",") :
    p.stream.current.isDelimiter "," ∨ p.stream.startsDeclaration ∧ hasComma 0 p.stream.tokens := by
  unfold loopInit at h
  rw [get_bind] at h
  split at h
  · next hstarts =>
    refine .inr ⟨hstarts, ?_⟩
    obtain ⟨n, p₁, hn, r₁⟩ := bind_eq_ok.mp h
    split at r₁
    · next hinit =>
      cases r₁
      rw [(declaration_divides hp hn hinit).hides]
      exact hasComma_of_comma hcomma
    · cases r₁
  · split at h
    · next hfirst => exact .inl hfirst
    · cases h

theorem threePartLoop_looks (hp : p.stream.EndsAhead) (h : threePartLoop body p = .ok n p') :
    p.stream.startsThreePartLoop = true := by
  obtain ⟨t, p₁, hadvance, r₁⟩ := bind_eq_ok.mp h
  cases hadvance
  obtain ⟨_, p₂, hopen, r₂⟩ := bind_eq_ok.mp r₁
  cases hopen
  obtain ⟨init, p₃, hinit, r₃⟩ := bind_eq_ok.mp r₂
  obtain ⟨_, p₄, hcomma, -⟩ := bind_eq_ok.mp r₃
  have hcomma := expectDelimiter_ok hcomma
  rw [acceptDelimiter_apply] at hcomma
  split at hcomma
  case isFalse => cases hcomma
  next hd =>
  have hlooks := loopInit_looks hp.advance hinit hd
  unfold startsThreePartLoop
  simpa using hlooks

theorem loopName_divides (hp : p.stream.EndsAhead) {name : Option Token}
    (h : loopName p = .ok name p') :
    p.stream.startsDeclaration = false ∧ p' = p ∨ p.stream.startsDeclaration ∧ p.Divides p' := by
  unfold loopName at h
  rw [get_bind] at h
  split at h
  · next hstarts =>
    refine .inr ⟨hstarts, ?_⟩
    cases h
    rw [startsDeclaration_eq hp, Bool.and_eq_true, beq_iff_eq] at hstarts
    have h₁ := advance_divides hp (.of_identifier hstarts.1)
    exact h₁.trans (advance_divides h₁.endsAhead (.of_colon hstarts.2))
  · next hstarts =>
    cases h
    exact .inl ⟨Bool.eq_false_iff.mpr hstarts, rfl⟩

theorem endHeader_ends (h : endHeader p = .ok () p') : p.stream.current.endsStatement := by
  obtain ⟨_, _, hend, -⟩ := bind_eq_ok.mp h
  obtain ⟨_, _, hstop, -⟩ := bind_eq_ok.mp hend
  have hstop := expect_ok hstop
  rw [accept_apply] at hstop
  split at hstop
  · next hk => simp [Token.endsStatement, hk]
  · cases hstop

theorem rangeLoop_looks (hp : p.stream.EndsAhead) (h : rangeLoop body p = .ok n p') :
    p.stream.startsThreePartLoop = false := by
  obtain ⟨t, p₁, hadvance, r₁⟩ := bind_eq_ok.mp h
  cases hadvance
  obtain ⟨name, p₂, hname, r₂⟩ := bind_eq_ok.mp r₁
  obtain ⟨range, p₃, hrange, r₃⟩ := bind_eq_ok.mp r₂
  obtain ⟨type, p₄, hlift, r₄⟩ := bind_eq_ok.mp r₃
  obtain ⟨-, rfl⟩ := liftExcept_ok hlift
  obtain ⟨_, p₅, hend, -⟩ := bind_eq_ok.mp r₄
  unfold startsThreePartLoop
  rcases loopName_divides hp.advance hname with ⟨hstarts, rfl⟩ | ⟨hstarts, hd⟩
  · have hbegins := (expression_divides hp.advance hrange).2
    have hfirst : p.stream.advance.current.isDelimiter "," = false :=
      Bool.eq_false_iff.mpr fun hfirst => hbegins (.inr (.inl hfirst))
    simp only at hstarts
    simp [hfirst, hstarts]
  · have hline := hd.trans (expression_divides hd.endsAhead hrange).1
    have hnone := hline.hides.trans (hasComma_of_end (endHeader_ends hend))
    rw [startsDeclaration_eq hp.advance, Bool.and_eq_true, beq_iff_eq] at hstarts
    have hfirst : p.stream.advance.current.isDelimiter "," = false :=
      Bool.eq_false_iff.mpr (Token.not_isDelimiter_of_kind (by simp [hstarts.1]))
    simp only at hnone
    simp [hfirst, hnone]

/-! ## Functions and constants -/

theorem declareFunction_looks (hp : p.stream.EndsAhead) {head : DeclarationHead}
    (h : declareFunction body head p = .ok n p') : p.stream.startsParameters = true := by
  obtain ⟨-, ns, p₁, p₂, hstream, hns⟩ := declareFunction_begins h
  rw [← hstream] at hp ⊢
  obtain ⟨_, p₃, hopening, r₁⟩ := bind_eq_ok.mp hns
  have hopening := expectDelimiter_ok hopening
  rw [acceptDelimiter_apply] at hopening
  split at hopening
  case isFalse => cases hopening
  next ho =>
  cases hopening
  rw [startsParameters_eq hp, ho, ← startsDeclaration_eq hp.advance]
  rw [get_bind] at r₁
  dsimp only at r₁
  cases hc : p₁.stream.advance.current.isDelimiter ")" with
  | true => rfl
  | false =>
    simp only [hc, Bool.false_eq_true, if_false] at r₁
    obtain ⟨ns', p₄, hns', -⟩ := bind_eq_ok.mp r₁
    cases hbound : p₁.stream.advance.tokens.length with
    | zero =>
      rw [hbound] at hns'
      cases hns'
    | succ bound =>
      rw [hbound] at hns'
      unfold parametersUpTo at hns'
      rw [get_bind] at hns'
      split at hns'
      · cases hns'
      · next hstarts => simpa using hstarts

theorem not_endsBefore_of_kind {t : Token} (depth : Nat) (hw : t.endsStatement = false)
    (hk : t.kind ≠ .delimiter) : ¬ Draft.EndsBefore depth t := by
  rintro (h | h | ⟨h, -⟩)
  · simp [hw] at h
  · exact Token.not_isDelimiter_of_kind hk h
  · exact Token.not_isDelimiter_of_kind hk h

theorem not_endsBefore_of_isDelimiter {t : Token} {text : String} {depth : Nat}
    (h : t.isDelimiter text) (hcomma : text ≠ ",") (hclosing : text = ")" → depth ≠ 0) :
    ¬ Draft.EndsBefore depth t := by
  rintro (h' | h' | ⟨h', h0⟩)
  · simp [endsStatement_of_isDelimiter h] at h'
  · exact hcomma (Token.isDelimiter_inj h h')
  · exact hclosing (Token.isDelimiter_inj h h') h0

/-- Behind its first parenthesis an expression has neither a closing one nor `identifier :`. -/
theorem expression_looks (hp : p.stream.EndsAhead) (h : expression p = .ok n p') :
    p.stream.startsParameters = false := by
  refine Bool.eq_false_iff.mpr fun hstarts => ?_
  rw [startsParameters_eq hp] at hstarts
  simp only [Bool.and_eq_true, Bool.or_eq_true, beq_iff_eq] at hstarts
  obtain ⟨ho, hnext⟩ := hstarts
  obtain ⟨m, p₁, hm, -⟩ := bind_eq_ok.mp h
  unfold expressionTree at hm
  split at hm
  case h_2 => cases hm
  next htree =>
  obtain ⟨e₁, hsteps, -⟩ := Expression.tree_steps htree
  obtain ⟨bound, e₂, hfirst, hsteps⟩ :=
    Expression.steps_takes (Expression.tree_begins htree) hsteps
  have hopened : e₂.stream = p.stream.advance ∧ e₂.wantsOperand = true ∧ e₂.parentheses = 1 := by
    rcases Expression.step_delimiter (Token.kind_of_isDelimiter ho) (Expression.tree_begins htree)
      hfirst with ⟨-, hopening⟩ | ⟨hclosing, -⟩
    · obtain ⟨hw, rfl⟩ := Expression.openParenthesis_eq_ok.mp hopening
      exact ⟨rfl, hw, rfl⟩
    · exact absurd (Token.isDelimiter_inj ho hclosing) (by decide)
  obtain ⟨hs₂, hw₂, hp₂⟩ := hopened
  rw [← hs₂] at hnext
  rcases hnext with hclosing | ⟨hk, hcolon⟩
  · have hstay : ¬ Draft.EndsBefore e₂.parentheses e₂.stream.current :=
      not_endsBefore_of_isDelimiter hclosing (by decide) fun _ => by simp [hp₂]
    obtain ⟨_, e₃, hsecond, -⟩ := Expression.steps_takes hstay hsteps
    rcases Expression.step_delimiter (Token.kind_of_isDelimiter hclosing) hstay hsecond with
      ⟨hopening, -⟩ | ⟨-, hcloses⟩
    · exact absurd (Token.isDelimiter_inj hclosing hopening) (by decide)
    · exact absurd hw₂ (by simp [(Expression.closeParenthesis_eq_ok.mp hcloses).1])
  · have hstay : ¬ Draft.EndsBefore e₂.parentheses e₂.stream.current :=
      not_endsBefore_of_kind _ (by simp [Token.endsStatement, hk]) (by simp [hk])
    obtain ⟨_, e₃, hsecond, hsteps⟩ := Expression.steps_takes hstay hsteps
    rw [← (Expression.step_takes hsecond).stream] at hcolon
    have hstay : ¬ Draft.EndsBefore e₃.parentheses e₃.stream.current :=
      not_endsBefore_of_isDelimiter hcolon (by decide) fun h => absurd h (by decide)
    obtain ⟨_, e₄, hthird, -⟩ := Expression.steps_takes hstay hsteps
    rcases Expression.step_delimiter (Token.kind_of_isDelimiter hcolon) hstay hthird with
      ⟨hd, -⟩ | ⟨hd, -⟩ <;>
    exact absurd (Token.isDelimiter_inj hcolon hd) (by decide)

/-! ## The choice -/

/--
The scan changes nothing, and its answer is `yes` where the first reading succeeds and `no` where the second
one does, so never do both.
-/
structure Chooses {α β : Type} (scan : Parse Bool) (yes : Parse α) (no : Parse β) (p : Parser) :
    Prop where
  answers : ∃ answer, lookAhead scan p = .ok answer p
  of_yes : ∀ a p', yes p = .ok a p' → lookAhead scan p = .ok true p
  of_no : ∀ b p', no p = .ok b p' → lookAhead scan p = .ok false p
  exclusive : ∀ a p' b p'', yes p = .ok a p' → no p ≠ .ok b p''

theorem chooses_of_looks {α β : Type} {scan : Parse Bool} {yes : Parse α} {no : Parse β}
    {answer : Bool} (hscan : lookAhead scan p = .ok answer p)
    (hyes : ∀ a p', yes p = .ok a p' → answer = true)
    (hno : ∀ b p', no p = .ok b p' → answer = false) : Chooses scan yes no p where
  answers := ⟨answer, hscan⟩
  of_yes a p' h := hyes a p' h ▸ hscan
  of_no b p' h := hno b p' h ▸ hscan
  exclusive a p' b p'' h h' := by
    rw [hyes a p' h] at hno
    cases hno b p'' h'

theorem forLoop_looks (hp : p.stream.EndsAhead) :
    forLoop body p =
      (do if ← lookAhead seekThreeParts then threePartLoop body else rangeLoop body : Parse Node) p := by
  unfold forLoop
  rw [get_bind, bind_apply, lookAhead_seekThreeParts hp]

/-- What is behind the second colon of a declaration that is not a parameter. -/
def constantOrFunction (body : String → Parse Scope) (head : DeclarationHead) : Parse Node := do
  if ← lookAhead seekParameters then declareFunction body head else declareValue head .constant

theorem declaration_looks (hp : p.stream.EndsAhead) :
    declaration body p = (do
      let head ← declarationHead
      if ← acceptDelimiter ":" then constantOrFunction body head
      else declareVariable head : Parse Node) p := by
  refine then_congr fun head p₁ hhead => then_congr fun b p₂ hb => ?_
  have hp₂ := ((declarationHead_adds hhead).1.stream.trans (quiet_acceptDelimiter _ hb).stream).endsAhead hp
  cases b with
  | false => rfl
  | true =>
    simp only [if_true, constantOrFunction]
    rw [get_bind, bind_apply, lookAhead_seekParameters hp₂]

/--
Which loop a `for` begins, and whether a function or a constant is declared, is decided by a scan that is
taken back, and never wrongly.
-/
theorem lookahead_exact (body : String → Parse Scope) (head : DeclarationHead)
    (hp : p.stream.EndsAhead) :
    Chooses seekThreeParts (threePartLoop body) (rangeLoop body) p ∧
    forLoop body p =
      (do if ← lookAhead seekThreeParts then threePartLoop body else rangeLoop body : Parse Node) p ∧
    Chooses seekParameters (declareFunction body head) expression p ∧
    declaration body p = (do
      let head ← declarationHead
      if ← acceptDelimiter ":" then constantOrFunction body head
      else declareVariable head : Parse Node) p :=
  ⟨chooses_of_looks (lookAhead_seekThreeParts hp) (fun _ _ => threePartLoop_looks hp)
      (fun _ _ => rangeLoop_looks hp),
    forLoop_looks hp,
    chooses_of_looks (lookAhead_seekParameters hp) (fun _ _ => declareFunction_looks hp)
      (fun _ _ => expression_looks hp),
    declaration_looks hp⟩

def succeeds {α : Type} (x : Parse α) (p : Parser) : Bool :=
  match x p with
  | .ok _ _ => true
  | .error _ _ => false

theorem exists_ok_of_succeeds {α : Type} {x : Parse α} (h : succeeds x p = true) :
    ∃ a p', x p = .ok a p' := by
  unfold succeeds at h
  split at h
  · next hx => exact ⟨_, _, hx⟩
  · cases h

/-- A loop whose first comma is inside of parentheses: it has three parts, and is over no range. -/
theorem lookahead_exact_parentheses :
    ∃ ts, tokenize "for i := (1), (i < 3), i++\n    i\n" "" = .ok ts ∧
      (Parser.ofTokens ts statementKeywords).stream.EndsAhead ∧
      (∃ n p', threePartLoop Parse.body (.ofTokens ts statementKeywords) = .ok n p') ∧
      ∀ n p', rangeLoop Parse.body (.ofTokens ts statementKeywords) ≠ .ok n p' := by
  have hruns : ((tokenize "for i := (1), (i < 3), i++\n    i\n" "").map fun ts =>
      succeeds (threePartLoop Parse.body) (.ofTokens ts statementKeywords)).toOption = some true := by
    decide +kernel
  obtain ⟨ts, hts, hthree⟩ := exists_ok_of_map hruns
  obtain ⟨n, p', hn⟩ := exists_ok_of_succeeds hthree
  have hends : (Parser.ofTokens ts statementKeywords).stream.EndsAhead := endsAhead_ofTokens ts
  obtain ⟨hloops, -⟩ := lookahead_exact Parse.body ⟨default, .auto, .nowhere⟩ hends
  exact ⟨ts, hts, hends, ⟨n, p', hn⟩, fun m q => hloops.exclusive n p' m q hn⟩

end Parse

end Offside
