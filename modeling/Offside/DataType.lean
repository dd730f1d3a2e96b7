/-!
# Data types

The set is closed: every literal, declaration and expression has exactly one of them. `auto`
stands only on a declaration whose type is still to be inferred, `void` only as the result of a
function.
-/

namespace Offside

set_option autoImplicit false

inductive DataType where
  | boolean | int | float | double | char | string | void | auto
deriving DecidableEq, Repr, Inhabited

namespace DataType

def all : List DataType := [boolean, int, float, double, char, string, void, auto]

/-- The name that a declaration writes. -/
def name : DataType → String
  | boolean => "boolean"
  | int => "int"
  | float => "float"
  | double => "double"
  | char => "char"
  | string => "string"
  | void => "void"
  | auto => "auto"

/-- The name with a capital, as a tree dump writes it. -/
def title (t : DataType) : String := t.name.capitalize

/--
Names are read without regard to case. Outside ASCII only the Kelvin sign has a lower case in ASCII,
and no type name holds a `k`, so folding ASCII letters is enough.
-/
def ofName? (name : String) : Option DataType :=
  all.find? fun t => t.name == name.map Char.toLower

theorem mem_all (t : DataType) : t ∈ all := by cases t <;> decide

end DataType

end Offside
