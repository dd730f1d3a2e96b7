import Offside.Floating.Power
import Offside.Floating.Remainder
import Offside.Tree.Node

/-!
# Constant folding

An expression of literals and arithmetic operators is its value. Integers wrap around at 32 bits except
in powers, floating point numbers follow their format, and strings can be joined. Any other expression
stays as it is.
-/

namespace Offside

set_option autoImplicit false

inductive Arithmetic where
  | add | sub | mul | div | mod | pow
deriving DecidableEq, Repr

namespace Arithmetic

def ofOperator? : Operator → Option Arithmetic
  | .add => some add
  | .sub => some sub
  | .mul => some mul
  | .div => some div
  | .mod => some mod
  | .pow => some pow
  | _ => none

/-- What a message calls the operation. -/
def noun : Arithmetic → String
  | add => "addition"
  | sub => "subtraction"
  | mul => "multiplication"
  | div => "division"
  | mod => "modulus"
  | pow => "exponent"

/-- Division truncates; only division by zero has no value. A power does not wrap around. -/
def int : Arithmetic → Int32 → Int32 → Option Int32
  | add, l, r => some (l + r)
  | sub, l, r => some (l - r)
  | mul, l, r => some (l * r)
  | div, l, r => if r = 0 then none else some (l / r)
  | mod, l, r => if r = 0 then none else some (l % r)
  | pow, l, r => some (Floating.power l r)

def float : Arithmetic → Float32 → Float32 → Float32
  | add, l, r => l + r
  | sub, l, r => l - r
  | mul, l, r => l * r
  | div, l, r => l / r
  | mod, l, r => Floating.remainder32 l r
  | pow, l, r => l.pow r

def double : Arithmetic → Float → Float → Float
  | add, l, r => l + r
  | sub, l, r => l - r
  | mul, l, r => l * r
  | div, l, r => l / r
  | mod, l, r => Floating.remainder64 l r
  | pow, l, r => l.pow r

/--
The value of an operation at `location`. An operand that the operation does not take is reported at the
left one.
-/
def apply (a : Arithmetic) (location : Location) (left right : Literal) :
    Except Diagnostic Value :=
  match a, left.value, right.value with
  | add, .string l, .string r => .ok (.string (l ++ r))
  | _, .int l, .int r =>
    match a.int l r with
    | some n => .ok (.int n)
    | none => .error ⟨.divisionByZero, location⟩
  | _, .float l, .float r => .ok (.float (a.float l r))
  | _, .double l, .double r => .ok (.double (a.double l r))
  | _, _, _ => .error ⟨.illegalOperand a.noun left.type, left.location⟩

end Arithmetic

namespace Node

/--
The literal that the tree comes down to, placed at its leftmost one. The right operand of an operation
is not looked at if the left one has no value.
-/
def value? : Node → Except Diagnostic (Option Literal)
  | literal l => .ok (some l)
  | binary operator left right location => do
    let some l ← left.value? | return none
    let some r ← right.value? | return none
    if l.type ≠ r.type then throw ⟨.typeMismatch, location⟩
    match Arithmetic.ofOperator? operator with
    | some a => return some ⟨← a.apply location l r, l.location⟩
    | none => return none
  | _ => .ok none

def fold (n : Node) : Except Diagnostic Node := do
  match ← n.value? with
  | some l => return .literal l
  | none => return n

end Node

end Offside
