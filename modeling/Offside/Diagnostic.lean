import Offside.Fault
import Offside.Location
import Offside.Source.Line
import Offside.Text.WhiteSpace

/-!
# Diagnostics

A fault and its place. The first one ends the work; nothing is gathered. Shown together with the
source text, a diagnostic quotes the line it points into, without the line's indentation, and marks
the column with a caret.
-/

namespace Offside

set_option autoImplicit false

structure Diagnostic where
  fault : Fault
  location : Location
deriving DecidableEq, Repr, Inhabited

namespace Diagnostic

def message (d : Diagnostic) : String := d.fault.message

def toText (d : Diagnostic) : String := d.location.toText ++ " " ++ d.message

def trimEnd (line : List Char) : List Char :=
  (line.reverse.dropWhile Text.isWhiteSpace).reverse

/-- A bar that stands under the one after a line number of `width` digits. -/
def gutter (width : Nat) : List Char := List.replicate (width + 1) ' ' ++ ['|']

/-- The dashes that lead to the caret, and the caret; never left of the line's first character. -/
def caret (column indent : Nat) : List Char :=
  List.replicate (max column 1 - indent - 1) '-' ++ ['^']

/-- The three lines under the message; the quoted line is shown without its indentation. -/
def excerpt (number column : Nat) (line : List Char) : List (List Char) :=
  let digits := (toString number).toList
  let indent := (line.takeWhile Source.isIndent).length
  [gutter digits.length,
    digits ++ " | ".toList ++ trimEnd (line.drop indent),
    gutter digits.length ++ ' ' :: caret column indent]

/-- Every line of the result ends with a line feed. -/
def render (d : Diagnostic) (source : String) : String :=
  let quoted :=
    match Source.line? source d.location.line with
    | some line => excerpt d.location.line d.location.column line
    | none => []
  String.ofList ((d.toText.toList :: quoted).flatMap (· ++ ['\n']))

end Diagnostic

end Offside
