import Offside.Proofs.FrameGrowth

/-!
# The tokens that an expression takes

Whatever the tokens are, each step of an expression but the last takes one of them, and the parentheses that
the expression has open are those that the search for a comma counts.
-/

namespace Offside

set_option autoImplicit false

theorem Token.kind_ne_endOfFile {t : Token} (h : t.endsStatement = false) : t.kind ≠ .endOfFile := by
  intro hk
  simp [Token.endsStatement, hk] at h

namespace Expression

open Execution TokenStream

variable {symbols : SymbolTable} {t : Token} {e e' : Expression}

/-- The step takes the current token, and hides from the search for a comma what it takes. -/
structure Takes (e e' : Expression) : Prop where
  kind : e.stream.current.kind ≠ .endOfFile
  stream : e'.stream = e.stream.advance
  hides : hasComma e.parentheses (e.stream.current :: e'.stream.tokens) =
    hasComma e'.parentheses e'.stream.tokens

/-- The stacks change at most, and where a step comes with them is left alone. -/
structure Rearranges (e e' : Expression) : Prop where
  stream : e'.stream = e.stream
  parentheses : e'.parentheses = e.parentheses

theorem Rearranges.trans {e₁ : Expression} (h : e.Rearranges e₁) (h' : e₁.Rearranges e') : e.Rearranges e' :=
  ⟨h'.stream.trans h.stream, h'.parentheses.trans h.parentheses⟩

theorem reduce_rearranges {top : PendingOperator} (h : reduce top e = .ok () e') :
    e.Rearranges e' := by
  obtain ⟨-, operand, rest, -, rfl⟩ | ⟨-, right, left, rest, -, rfl⟩ := reduce_eq_ok h
  · exact ⟨rfl, rfl⟩
  · exact ⟨rfl, rfl⟩

theorem reduceWhile_rearranges {ready : Operator → Bool} {stack : List PendingOperator}
    (h : reduceWhile ready stack e = .ok () e') : e.Rearranges e' := by
  refine reduceWhile_relates (fun _ => ⟨rfl, rfl⟩) Rearranges.trans (fun htop => ?_) h
  obtain ⟨hstream, hparentheses⟩ := reduce_rearranges htop
  exact ⟨hstream, hparentheses⟩

/-! ## One step -/

/-- A word is no parenthesis, and none is opened or closed with it. -/
theorem Takes.word (hw : e.stream.current.endsStatement = false)
    (hk : e.stream.current.kind ≠ .delimiter) (hs : e'.stream = e.stream.advance)
    (hp : e'.parentheses = e.parentheses) : e.Takes e' := by
  refine ⟨Token.kind_ne_endOfFile hw, hs, ?_⟩
  have hd : ∀ text, e.stream.current.isDelimiter text = false :=
    fun _ => Bool.eq_false_iff.mpr (Token.not_isDelimiter_of_kind hk)
  rw [hasComma, hw, hd, hd, hd, hp]
  simp

theorem literal_takes (hk : e.stream.current.kind = .literal)
    (h : literal e.stream.current e = .ok () e') : e.Takes e' := by
  obtain ⟨-, l, -, rfl⟩ := literal_eq_ok.mp h
  exact .word (by simp [Token.endsStatement, hk]) (by simp [hk]) rfl rfl

theorem identifier_takes (hk : e.stream.current.kind = .identifier)
    (h : identifier symbols e.stream.current e = .ok () e') : e.Takes e' := by
  have hw : e.stream.current.endsStatement = false := by simp [Token.endsStatement, hk]
  obtain ⟨-, ⟨v, -, rfl⟩ | ⟨f, -, rfl⟩⟩ := identifier_eq_ok.mp h
  · exact .word hw (by simp [hk]) rfl rfl
  · exact .word hw (by simp [hk]) rfl rfl

theorem operator_takes (hk : e.stream.current.kind = .operator)
    (h : operator symbols e.stream.current e = .ok () e') : e.Takes e' := by
  obtain ⟨_, _, e₁, -, -, h₁, rfl⟩ := operator_eq_ok.mp h
  obtain ⟨hstream, hparentheses⟩ := reduceWhile_rearranges h₁
  exact .word (by simp [Token.endsStatement, hk]) (by simp [hk]) hstream hparentheses

theorem openParenthesis_takes (hd : e.stream.current.isDelimiter "(")
    (h : openParenthesis e.stream.current e = .ok () e') : e.Takes e' := by
  obtain ⟨-, rfl⟩ := openParenthesis_eq_ok.mp h
  have hw := Parse.endsStatement_of_isDelimiter hd
  refine ⟨?_, rfl, ?_⟩
  · intro hend
    simp [Token.endsStatement, hend] at hw
  · rw [hasComma, hw, hd]
    simp

theorem closeParenthesis_takes (hd : e.stream.current.isDelimiter ")")
    (h : closeParenthesis e = .ok () e') : e.Takes e' := by
  obtain ⟨-, e₁, h₁, rfl⟩ := closeParenthesis_eq_ok.mp h
  obtain ⟨hstream, hparentheses⟩ := reduceWhile_rearranges h₁
  have hw := Parse.endsStatement_of_isDelimiter hd
  have hopening : e.stream.current.isDelimiter "(" = false :=
    Bool.eq_false_iff.mpr fun h' => absurd (Token.isDelimiter_inj hd h') (by decide)
  refine ⟨?_, hstream, ?_⟩
  · intro hend
    simp [Token.endsStatement, hend] at hw
  · rw [hasComma, hw, hopening, hd]
    simp [hparentheses]

/-- A step that goes on takes the current token. -/
theorem step_takes (h : step symbols e = .ok true e') : e.Takes e' := by
  rcases step_eq_ok h with ⟨hends, -⟩ | ⟨-, -, x, hacts, hx⟩
  · cases hends
  · cases hacts with
    | literal hk => exact literal_takes hk hx
    | identifier hk => exact identifier_takes hk hx
    | operator hk => exact operator_takes hk hx
    | opening hopening => exact openParenthesis_takes hopening hx
    | closing hclosing => exact closeParenthesis_takes hclosing hx
    | stuck => cases hx

/-- A step that does not go on leaves the expression in front of where it ends. -/
theorem step_ends (h : step symbols e = .ok false e') :
    e' = e ∧ Draft.EndsBefore e.parentheses e.stream.current := by
  rcases step_eq_ok h with ⟨-, hends⟩ | ⟨hgoes, -⟩
  · exact hends
  · cases hgoes

/-! ## What a delimiter does -/

/-- What an expression does with a delimiter that does not end it. -/
theorem step_delimiter {b : Bool} (hk : e.stream.current.kind = .delimiter)
    (hstay : ¬ Draft.EndsBefore e.parentheses e.stream.current) (h : step symbols e = .ok b e') :
    e.stream.current.isDelimiter "(" ∧ openParenthesis e.stream.current e = .ok () e' ∨
      e.stream.current.isDelimiter ")" ∧ closeParenthesis e = .ok () e' := by
  rcases step_eq_ok h with ⟨-, -, hends⟩ | ⟨-, -, x, hacts, hx⟩
  · exact absurd hends hstay
  · cases hacts with
    | literal hword | identifier hword | operator hword => cases hk.symm.trans hword
    | opening hopening => exact .inl ⟨hopening, hx⟩
    | closing hclosing => exact .inr ⟨hclosing, hx⟩
    | stuck => cases hx

theorem Takes.tokens (h : e.Takes e') (hs : e.stream.EndsAhead) :
    e.stream.tokens = e.stream.current :: e'.stream.tokens := by
  rw [h.stream]
  exact tokens_advance hs h.kind

theorem Takes.beyond (h : e.Takes e') : e.stream.Beyond e'.stream := by
  rw [h.stream]
  exact beyond_advance h.kind

/-! ## All steps -/

/-- Behind the expression the search for a comma goes on as it would have in front of it. -/
structure Ends (depth : Nat) (s : TokenStream) (e' : Expression) : Prop where
  endsAhead : e'.stream.EndsAhead
  hides : hasComma depth s.tokens = hasComma e'.parentheses e'.stream.tokens
  before : Draft.EndsBefore e'.parentheses e'.stream.current

theorem steps_ends {n : Nat} (hs : e.stream.EndsAhead) (h : steps symbols n e = .ok () e') :
    Ends e.parentheses e.stream e' := by
  induction n generalizing e with
  | zero => cases h
  | succ n ih =>
    obtain ⟨b, e₁, h₁, h₂⟩ := bind_eq_ok.mp h
    cases b with
    | false =>
      cases h₂
      obtain ⟨rfl, hbefore⟩ := step_ends h₁
      exact ⟨hs, rfl, hbefore⟩
    | true =>
      have htakes := step_takes h₁
      obtain ⟨hends, hhides, hbefore⟩ := ih (htakes.beyond.endsAhead hs) h₂
      refine ⟨hends, ?_, hbefore⟩
      rw [htakes.tokens hs, htakes.hides, hhides]

/-- In front of a token that does not end the expression there is a step to take. -/
theorem steps_takes {n : Nat} (hstay : ¬ Draft.EndsBefore e.parentheses e.stream.current)
    (h : steps symbols n e = .ok () e') :
    ∃ m e₁, step symbols e = .ok true e₁ ∧ steps symbols m e₁ = .ok () e' := by
  cases n with
  | zero => cases h
  | succ n =>
    obtain ⟨b, e₁, h₁, h₂⟩ := bind_eq_ok.mp h
    cases b with
    | false => exact absurd (step_ends h₁).2 hstay
    | true => exact ⟨n, e₁, h₁, h₂⟩

variable {s : TokenStream} {n : Node}

theorem tree_steps (h : tree symbols (.start s) = .ok n e') :
    ∃ e₁, steps symbols s.tokens.length (.start s) = .ok () e₁ ∧ finish e₁ = .ok n e' :=
  bind_unit_eq_ok.mp h

/-- Without a token there is no operand, hence no tree. -/
theorem tree_begins (h : tree symbols (.start s) = .ok n e') : ¬ Draft.EndsBefore 0 s.current := by
  intro hends
  obtain ⟨e₁, h₁, h₂⟩ := tree_steps h
  have hstep : step symbols (.start s) = .ok false (.start s) :=
    step_of_endsBefore hends
  obtain ⟨b, e₂, h₃, h₄⟩ := bind_eq_ok.mp h₁
  rw [hstep] at h₃
  cases h₃
  cases h₄
  obtain ⟨-, e₃, h₅, hn, -⟩ := finish_eq_ok.mp h₂
  cases h₅
  cases hn

theorem tree_ends (hs : s.EndsAhead) (h : tree symbols (.start s) = .ok n e') :
    Ends 0 s e' ∧ e'.parentheses = 0 := by
  obtain ⟨e₁, h₁, h₂⟩ := tree_steps h
  obtain ⟨hends, hhides, hbefore⟩ := steps_ends hs h₁
  obtain ⟨hclosed, e₂, h₃, -, rfl⟩ := finish_eq_ok.mp h₂
  obtain ⟨hstream, hparentheses⟩ := reduceWhile_rearranges h₃
  rw [← hstream, ← hparentheses] at hhides hbefore
  rw [← hstream] at hends
  exact ⟨⟨hends, hhides, hbefore⟩, hparentheses.trans hclosed⟩

end Expression

end Offside
