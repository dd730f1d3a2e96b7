import Offside.Proofs.MaximalMunch
import Offside.Proofs.NumeralValues

/-!
# The values of literals

A literal is checked where it is read and valued somewhere else, from the text that its token keeps. The two
agree: what a literal says in the source is the value of its token, and every literal has one except for whole
numbers beyond 32 bits.
-/

namespace Offside

set_option autoImplicit false

open Lexeme (Forms IsStringBody IsUnit numberType)
open Numeral (IsScientific)

/-! ## What a literal says -/

section Escapes

open Text.Escape (resolve letter? code? digits)

theorem resolve_plain {c : Char} (h : c ≠ '\\') (decimal : Bool) (rest : List Char) :
    resolve decimal (c :: rest) = c :: resolve decimal rest := by
  rw [resolve]
  intro d more hc
  exact absurd hc h

theorem isDigit_of_letter? {c d : Char} (h : letter? c = some d) : c.isDigit = false := by
  unfold letter? at h
  split at h <;> first | rfl | cases h

theorem resolve_letter {c d : Char} (h : letter? c = some d) (decimal : Bool) (rest : List Char) :
    resolve decimal ('\\' :: c :: rest) = d :: resolve decimal rest := by
  rw [resolve, isDigit_of_letter? h, Bool.and_false, h]
  rfl

end Escapes

end Offside
