/-!
# Lines of a source text

A line ends at a line feed. A carriage return right before the line feed, or at the very end of the
text, belongs to the line break.
-/

namespace Offside.Source

set_option autoImplicit false

/-- The texts between line feeds: one more than there are line feeds. -/
def split : List Char → List (List Char)
  | [] => [[]]
  | c :: cs =>
    match split cs with
    | line :: rest => if c = '\n' then [] :: line :: rest else (c :: line) :: rest
    | [] => [[c]]

def dropReturn (line : List Char) : List Char :=
  if line.getLast? = some '\r' then line.dropLast else line

/-- The indentation of a line is its leading spaces and tabs. -/
def isIndent (c : Char) : Bool := c = ' ' || c = '\t'

/-- Lines count from 1. -/
def line? (source : String) (n : Nat) : Option (List Char) :=
  match n with
  | 0 => none
  | n + 1 => (split source.toList)[n]?.map dropReturn

theorem split_ne_nil (cs : List Char) : split cs ≠ [] := by
  cases cs with
  | nil => simp [split]
  | cons c cs =>
    rw [split]
    split
    · split <;> simp
    · simp

end Offside.Source
