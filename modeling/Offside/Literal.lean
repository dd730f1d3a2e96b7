import Offside.Diagnostic
import Offside.Numeral
import Offside.Text.Escape
import Offside.Token

/-!
# Literals

The value that a literal token stands for. Integers have 32 bits, a `float` is a binary number of 32
bits and a `double` one of 64.
-/

namespace Offside

set_option autoImplicit false

inductive Value where
  | boolean (b : Bool)
  | int (n : Int32)
  | float (x : Float32)
  | double (x : Float)
  | char (c : Char)
  | string (s : String)
deriving Repr

namespace Value

def type : Value → DataType
  | boolean _ => .boolean
  | int _ => .int
  | float _ => .float
  | double _ => .double
  | char _ => .char
  | string _ => .string

/-- Numbers compare as numbers: zero equals its negative, and what is no number equals nothing. -/
def equal : Value → Value → Bool
  | boolean a, boolean b => a == b
  | int a, int b => a == b
  | float a, float b => a == b
  | double a, double b => a == b
  | char a, char b => a == b
  | string a, string b => a == b
  | _, _ => false

/-- A `float` is written with its suffix, however often it stands there. -/
def trimSuffix (text : List Char) : List Char :=
  (text.reverse.dropWhile fun c => c = 'f' || c = 'F').reverse

/-- The value of the given type that a token's text stands for. -/
def read? (text : String) : DataType → Option Value
  | .boolean => some (boolean (text == "true"))
  | .int => (Numeral.int32? text).map int
  | .float => (Numeral.float32? (String.ofList (trimSuffix text.toList))).map float
  | .double => (Numeral.float? text).map double
  | .char =>
    match Text.Escape.resolve true text.toList with
    | [c] => some (char c)
    | _ => none
  | .string => some (string (Text.Escape.resolveText false text))
  | .void | .auto => none

end Value

structure Literal where
  value : Value
  location : Location
deriving Repr

namespace Literal

def type (l : Literal) : DataType := l.value.type

def equal (a b : Literal) : Bool := a.value.equal b.value && a.location == b.location

/-- Only the type of the token counts, not its kind. -/
def ofToken (t : Token) : Except Diagnostic Literal :=
  match t.type with
  | none => .error ⟨.unexpectedToken t.text, t.location⟩
  | some type =>
    match Value.read? t.text type with
    | some value => .ok ⟨value, t.location⟩
    | none => .error ⟨.invalidLiteral type, t.location⟩

end Literal

end Offside
