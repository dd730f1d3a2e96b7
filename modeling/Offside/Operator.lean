/-!
# The operator table

Each operator has a symbol, a group, a precedence and an associativity. Several symbols are shared
(`+` adds and is a sign, `++` stands before or after a variable): a symbol alone names the first
operator of the table that has it, and the place in an expression decides which one is meant.
-/

namespace Offside

set_option autoImplicit false

inductive Operator where
  | assignment | addAssignment | subAssignment | mulAssignment | divAssignment
  | logicalOr | logicalAnd
  | equal | notEqual
  | less | lessEquals | greater | greaterEquals
  | add | sub
  | div | mod | mul
  | unaryPlus | unaryMinus | logicalNegation | preIncrement | preDecrement
  | pow
  | postIncrement | postDecrement
  | openParenthesis | closeParenthesis
deriving DecidableEq, Repr, Inhabited

namespace Operator

inductive Group where
  | assignment | binary | unary | relational | delimiter
deriving DecidableEq, Repr, Inhabited

inductive Associativity where
  | leftToRight | rightToLeft
deriving DecidableEq, Repr, Inhabited

def table : List Operator :=
  [assignment, addAssignment, subAssignment, mulAssignment, divAssignment,
    logicalOr, logicalAnd, equal, notEqual, less, lessEquals, greater, greaterEquals,
    add, sub, div, mod, mul,
    unaryPlus, unaryMinus, logicalNegation, preIncrement, preDecrement,
    pow, postIncrement, postDecrement, openParenthesis, closeParenthesis]

/-- What a tree dump calls the operator. -/
def name : Operator → String
  | assignment => "Assignment"
  | addAssignment => "AddAssignment"
  | subAssignment => "SubAssignment"
  | mulAssignment => "MulAssignment"
  | divAssignment => "DivAssignment"
  | logicalOr => "LogicalOr"
  | logicalAnd => "LogicalAnd"
  | equal => "Equal"
  | notEqual => "NotEqual"
  | less => "Less"
  | lessEquals => "LessEquals"
  | greater => "Greater"
  | greaterEquals => "GreaterEquals"
  | add => "Add"
  | sub => "Sub"
  | div => "Div"
  | mod => "Mod"
  | mul => "Mul"
  | unaryPlus => "UnaryPlus"
  | unaryMinus => "UnaryMinus"
  | logicalNegation => "LogicalNegation"
  | preIncrement => "PreIncrement"
  | preDecrement => "PreDecrement"
  | pow => "Pow"
  | postIncrement => "PostIncrement"
  | postDecrement => "PostDecrement"
  | openParenthesis => "OpenParenthesis"
  | closeParenthesis => "CloseParenthesis"

def symbol : Operator → String
  | assignment => "="
  | addAssignment => "+="
  | subAssignment => "-="
  | mulAssignment => "*="
  | divAssignment => "/="
  | logicalOr => "||"
  | logicalAnd => "&&"
  | equal => "=="
  | notEqual => "!="
  | less => "<"
  | lessEquals => "<="
  | greater => ">"
  | greaterEquals => ">="
  | add | unaryPlus => "+"
  | sub | unaryMinus => "-"
  | div => "/"
  | mod => "%"
  | mul => "*"
  | logicalNegation => "!"
  | preIncrement | postIncrement => "++"
  | preDecrement | postDecrement => "--"
  | pow => "^"
  | openParenthesis => "("
  | closeParenthesis => ")"

def group : Operator → Group
  | assignment | addAssignment | subAssignment | mulAssignment | divAssignment => .assignment
  | equal | notEqual | less | lessEquals | greater | greaterEquals => .relational
  | unaryPlus | unaryMinus | logicalNegation | preIncrement | preDecrement
  | postIncrement | postDecrement => .unary
  | openParenthesis | closeParenthesis => .delimiter
  | logicalOr | logicalAnd | add | sub | div | mod | mul | pow => .binary

/-- A higher number binds tighter. -/
def precedence : Operator → Nat
  | openParenthesis | closeParenthesis => 0
  | assignment | addAssignment | subAssignment | mulAssignment | divAssignment => 1
  | logicalOr => 3
  | logicalAnd => 4
  | equal | notEqual => 8
  | less | lessEquals | greater | greaterEquals => 9
  | add | sub => 11
  | div | mod | mul => 12
  | unaryPlus | unaryMinus | logicalNegation | preIncrement | preDecrement | pow => 13
  | postIncrement | postDecrement => 14

def associativity (o : Operator) : Associativity :=
  match o.group with
  | .assignment | .unary => .rightToLeft
  | _ => if o = pow then .rightToLeft else .leftToRight

def isUnary (o : Operator) : Bool := o.group == .unary

/-- The operator that a symbol names on its own. -/
def ofSymbol? (symbol : String) : Option Operator :=
  table.find? fun o => o.symbol == symbol

theorem mem_table (o : Operator) : o ∈ table := by cases o <;> decide

theorem symbol_of_ofSymbol? {symbol : String} {o : Operator} (h : ofSymbol? symbol = some o) :
    o.symbol = symbol := by
  simpa using List.find?_some h

end Operator

end Offside
