import Offside.Parser

/-!
# What a reference leads to

A function lives as long as an open frame or a tree holds it, and a reference to it is alive so long.
The body of a function is complete only after all references in it have been read.
-/

namespace Offside

set_option autoImplicit false

inductive Target where
  | dead | declared | defined
deriving DecidableEq, Repr

/-- The functions that exist, and those of them that have a body. -/
structure Functions where
  living : List FunctionId
  defined : List FunctionId
deriving Repr

namespace Functions

def none : Functions := ⟨[], []⟩

def target (known : Functions) (f : Function) : Target :=
  if known.living.contains f.id then
    if known.defined.contains f.id then .defined else .declared
  else .dead

def append (a b : Functions) : Functions := ⟨a.living ++ b.living, a.defined ++ b.defined⟩

instance : Append Functions := ⟨append⟩

end Functions

def Identifier.functionId? : Identifier → Option FunctionId
  | .function f => some f.id
  | _ => none

/-- A frame holds the functions that it names; whether they have a body it does not say. -/
def Frame.functions (frame : Frame) : Functions := ⟨frame.filterMap Identifier.functionId?, []⟩

mutual

/-- The functions that are declared in the tree, by a statement or by a frame. -/
def Node.functions : Node → Functions
  | .literal _ | .var _ | .constant _ | .reference _ => .none
  | .function f parameters body =>
    ⟨[f.id], if body.isSome then [f.id] else []⟩ ++ Node.functionsAll parameters ++
      Scope.functionsOption body
  | .unary _ operand _ => operand.functions
  | .binary _ left right _ => left.functions ++ right.functions
  | .scope s => s.functions
  | .branch condition consequence alternative _ =>
    condition.functions ++ consequence.functions ++ Scope.functionsOption alternative
  | .whileLoop condition body _ => condition.functions ++ body.functions
  | .forLoop init condition increment body _ =>
    Node.functionsOption init ++ Node.functionsOption condition ++
      Node.functionsOption increment ++ body.functions
  | .rangeLoop range body _ => range.functions ++ body.functions

def Node.functionsAll : List Node → Functions
  | [] => .none
  | n :: ns => n.functions ++ Node.functionsAll ns

def Node.functionsOption : Option Node → Functions
  | none => .none
  | some n => n.functions

def Scope.functions : Scope → Functions
  | ⟨statements, frame⟩ => Frame.functions frame ++ Node.functionsAll statements

def Scope.functionsOption : Option Scope → Functions
  | none => .none
  | some s => s.functions

end

/-- The functions that the open frames of a parser hold. -/
def Parser.functions (p : Parser) : Functions :=
  ⟨(Frame.functions p.symbols.frames.flatten).living, p.defined⟩

end Offside
