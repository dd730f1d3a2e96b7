import Offside.Tree.Node

/-!
# Types of expressions

Both operands of an operator have the same type. A relation is boolean, any other operation has the
type of its operands. A statement has no value.
-/

namespace Offside

set_option autoImplicit false

namespace Node

/-- The left operand is looked at before the right one. -/
def type? : Node → Except Diagnostic DataType
  | literal l => .ok l.type
  | var v => .ok v.type
  | constant c => .ok c.type
  | function f _ _ => .ok f.returns
  | reference f => .ok f.returns
  | unary _ operand _ => operand.type?
  | binary operator left right location => do
    let l ← left.type?
    let r ← right.type?
    if l ≠ r then throw ⟨.typeMismatch, location⟩
    return if operator.group = .relational then .boolean else l
  | scope _ | branch .. | whileLoop .. | forLoop .. | rangeLoop .. => .ok .void

/--
The type that a declaration ends up with: the declared one, which the expression must have, or for
`auto` the type of the expression. `void` is never declared; `at` is where the type was written.
-/
def typeAs (declared : DataType) (place : Location) (n : Node) : Except Diagnostic DataType := do
  let type ← n.type?
  match declared with
  | .auto => if type = .void then throw ⟨.voidDataType, n.locationOr place⟩ else return type
  | .void => throw ⟨.voidDataType, place⟩
  | _ =>
    if declared ≠ type then throw ⟨.expectedType declared, n.locationOr place⟩
    else return declared

/-- A condition is boolean. -/
def checkBoolean (place : Location) (n : Node) : Except Diagnostic Unit := do
  if (← n.type?) ≠ .boolean then throw ⟨.expectedBoolean, n.locationOr place⟩

end Node

end Offside
