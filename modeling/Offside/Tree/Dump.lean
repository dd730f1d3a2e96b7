import Offside.Floating.Shortest
import Offside.Tree.Node

/-!
# The dump of a tree

A text that shows every part of a tree by name, on one line: records as `Name { part: value, .. }`,
alternatives as `Name(value)`, lists in brackets and frames in braces. The body of a function is left
out, and a reference does not show the function that it leads to. A frame is a map from names: a dump may
show its names in any order, and `order` says in which it does.
-/

namespace Offside

set_option autoImplicit false

namespace Dump

open Text (quoted quotedChar)

def commas (parts : List String) : String := ", ".intercalate parts

def braced (inside : String) : String := "\x7b" ++ inside ++ "\x7d"

def list (parts : List String) : String := "[" ++ commas parts ++ "]"

def tagged (name inside : String) : String := name ++ "(" ++ inside ++ ")"

def field (name value : String) : String := name ++ ": " ++ value

def record (name : String) (fields : List String) : String :=
  name ++ " " ++ braced (" " ++ commas fields ++ " ")

def boolean (b : Bool) : String := if b then "true" else "false"

def location (l : Location) : String :=
  record "Location" [field "file" (quoted l.file), field "line" (toString l.line),
    field "column" (toString l.column)]

def value : Value → String
  | .boolean b => tagged "Boolean" (boolean b)
  | .int n => tagged "Int" (toString n.toInt)
  | .float x => tagged "Float" (Floating.text32 x)
  | .double x => tagged "Double" (Floating.text64 x)
  | .char c => tagged "Char" (quotedChar c)
  | .string s => tagged "String" (quoted s)

def literal (l : Literal) : String :=
  record "Literal" [field "value" (value l.value), field "location" (location l.location)]

def var (v : Variable) : String :=
  record "Variable" [field "name" (quoted v.name), field "data_type" v.type.title,
    field "is_constant" (boolean v.isConstant), field "location" (location v.location)]

def constant (c : Constant) : String :=
  record "Constant" [field "name" (quoted c.name), field "data_type" c.type.title,
    field "location" (location c.location)]

/-- The dots stand for the body. -/
def function (f : Function) (parameters : String) : String :=
  record "Function" [field "name" (quoted f.name), field "parameters" parameters,
    field "return_type" f.returns.title, field "location" (location f.location), ".."]

def reference (f : Function) : String :=
  record "FunctionReference" [field "function" "(Weak)", field "name" (quoted f.name),
    field "return_type" f.returns.title, field "location" (location f.location)]

/-- A name of a frame; `parameters` are those of the functions that the block declares. -/
def entry (parameters : List (FunctionId × String)) (i : Identifier) : String :=
  field (quoted i.name) <|
    match i with
    | .var v => tagged "Variable" (var v)
    | .constant c => tagged "Constant" (constant c)
    | .function f => tagged "Function" (function f ((parameters.lookup f.id).getD (list [])))

end Dump

open Dump

section

variable (order : Frame → Frame)

mutual

def Node.dump : Node → String
  | .literal l => tagged "Literal" (literal l)
  | .var v => tagged "Variable" (var v)
  | .constant c => tagged "Constant" (constant c)
  | .function f parameters _ => tagged "Function" (function f (list (Node.dumpAll parameters)))
  | .reference f => tagged "FunctionReference" (reference f)
  | .unary o operand l =>
    tagged "UnaryOperator" <| record "UnaryOperator"
      [field "operator" o.name, field "operand" operand.dump, field "location" (location l)]
  | .binary o left right l =>
    tagged "BinaryOperator" <| record "BinaryOperator"
      [field "operator" o.name, field "left" left.dump, field "right" right.dump,
        field "location" (location l)]
  | .scope s => tagged "Scope" s.dump
  | .branch condition consequence alternative l =>
    tagged "IfStatement" <| record "IfStatement"
      [field "condition" condition.dump, field "then_scope" consequence.dump,
        field "else_scope" (Scope.dumpOption alternative), field "location" (location l)]
  | .whileLoop condition body l =>
    tagged "WhileStatement" <| record "WhileStatement"
      [field "condition" condition.dump, field "body" body.dump, field "location" (location l)]
  | .forLoop init condition increment body l =>
    tagged "ForStatement" <| record "ForStatement"
      [field "init" (Node.dumpOption init), field "condition" (Node.dumpOption condition),
        field "increment" (Node.dumpOption increment), field "body" body.dump,
        field "location" (location l)]
  | .rangeLoop range body l =>
    tagged "ForRangeStatement" <| record "ForRangeStatement"
      [field "range" range.dump, field "body" body.dump, field "location" (location l)]

def Node.dumpAll : List Node → List String
  | [] => []
  | n :: ns => n.dump :: Node.dumpAll ns

def Node.dumpOption : Option Node → String
  | none => "None"
  | some n => tagged "Some" n.dump

/-- The parameters of the functions that are declared by some of the statements. -/
def Node.parametersIn : List Node → List (FunctionId × String)
  | [] => []
  | .function f parameters _ :: ns =>
    (f.id, list (Node.dumpAll parameters)) :: Node.parametersIn ns
  | _ :: ns => Node.parametersIn ns

/-- The names of a frame have no order of their own: they are shown in the one that `order` gives. -/
def Scope.dump : Scope → String
  | ⟨statements, frame⟩ =>
    let parameters := Node.parametersIn statements
    record "Scope"
      [field "statements" (list (Node.dumpAll statements)),
        field "identifiers" (braced (commas ((order frame).map (entry parameters))))]

def Scope.dumpOption : Option Scope → String
  | none => "None"
  | some s => tagged "Some" s.dump

end

end

end Offside
