import Offside.Literal
import Offside.Operator
import Offside.SymbolTable

/-!
# The tree

What a source text says once names are resolved and the operators have found their operands. A block
of lines is a `Scope`: its statements, and the frame that was open while they were read.
-/

namespace Offside

set_option autoImplicit false

mutual

inductive Node where
  | literal (l : Literal)
  | var (v : Variable)
  | constant (c : Constant)
  /-- A parameter is a variable, or the assignment of its default value to one. -/
  | function (f : Function) (parameters : List Node) (body : Option Scope)
  /-- A function that is named in an expression. -/
  | reference (f : Function)
  | unary (operator : Operator) (operand : Node) (location : Location)
  /-- Operands stand in the order of the source. -/
  | binary (operator : Operator) (left right : Node) (location : Location)
  | scope (s : Scope)
  | branch (condition : Node) (consequence : Scope) (alternative : Option Scope)
    (location : Location)
  | whileLoop (condition : Node) (body : Scope) (location : Location)
  | forLoop (init condition increment : Option Node) (body : Scope) (location : Location)
  /-- The range is the assignment of an expression to the loop variable. -/
  | rangeLoop (range : Node) (body : Scope) (location : Location)

structure Scope where
  statements : List Node
  frame : Frame

end

namespace Node

/-- A scope has no place of its own. -/
def location? : Node → Option Location
  | literal l => some l.location
  | var v => some v.location
  | constant c => some c.location
  | function f _ _ => some f.location
  | reference f => some f.location
  | unary _ _ location => some location
  | binary _ _ _ location => some location
  | scope _ => none
  | branch _ _ _ location => some location
  | whileLoop _ _ location => some location
  | forLoop _ _ _ _ location => some location
  | rangeLoop _ _ location => some location

def locationOr (fallback : Location) (n : Node) : Location := n.location?.getD fallback

def literal? : Node → Option Literal
  | literal l => some l
  | _ => none

/-- The operator of a node with two operands. -/
def binaryOperator? : Node → Option Operator
  | binary o _ _ _ => some o
  | _ => none

def scope? : Node → Option Scope
  | scope s => some s
  | _ => none

end Node

def Scope.isEmpty (s : Scope) : Bool := s.statements.isEmpty

/-- The node for a use of a name in an expression. It keeps the place of the declaration. -/
def Identifier.toNode : Identifier → Node
  | .var v => .var v
  | .constant c => .constant c
  | .function f => .reference f

end Offside
