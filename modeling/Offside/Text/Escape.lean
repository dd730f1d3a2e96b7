import Offside.Numeral

/-!
# Escape sequences

A backslash in the body of a string or a character literal begins an escape: a letter for a control
character, a quote or a backslash for itself and, in a character literal, up to three decimal digits
for the code of a character. A backslash that begins none of these stays, with what follows it.
-/

namespace Offside.Text.Escape

set_option autoImplicit false

/-- The character that an escape of one letter stands for. -/
def letter? : Char → Option Char
  | 't' => some '\t'
  | 'r' => some '\r'
  | 'n' => some '\n'
  | 'b' => some '\x08'
  | 'f' => some '\x0c'
  | '\\' => some '\\'
  | '\'' => some '\''
  | '"' => some '"'
  | _ => none

/-- The digits of a decimal escape at the start of `cs`: never more than three. -/
def digits (cs : List Char) : List Char := (cs.takeWhile Char.isDigit).take 3

/-- Codes end at 255. -/
def code? (digits : List Char) : Option Char :=
  let n := Numeral.value 10 digits
  if n ≤ 255 then some (Char.ofNat n) else none

/-- Decimal escapes count only if `decimal` is set. -/
def resolve (decimal : Bool) : List Char → List Char
  | [] => []
  | '\\' :: c :: rest =>
    if decimal && c.isDigit then
      let ds := digits (c :: rest)
      let after := (c :: rest).drop ds.length
      match code? ds with
      | some c => c :: resolve decimal after
      | none => '\\' :: ds ++ resolve decimal after
    else
      match letter? c with
      | some c => c :: resolve decimal rest
      | none => '\\' :: c :: resolve decimal rest
  | c :: rest => c :: resolve decimal rest
termination_by cs => cs.length
decreasing_by
  all_goals
    simp only [List.length_drop, List.length_cons]
    omega

def resolveText (decimal : Bool) (raw : String) : String :=
  String.ofList (resolve decimal raw.toList)

end Offside.Text.Escape
