import Offside.Expression
import Offside.Tree.Typing

/-!
# Declarations

- `name : [type] = expression` declares a variable, `name : type` one without a value;
- `name : [type] : expression` declares a constant, or as a parameter a variable that is constant;
- `name : [type] : (parameters) [-> type]` declares a function, whose body is a block.

An expression is read and checked before its name is declared, so it does not see that name. A
function is declared before its body is read; its parameters live in the frame of the body.
-/

namespace Offside

set_option autoImplicit false

/-- What a declaration makes of its name. -/
inductive Declared where
  | variable | constantVariable | constant
deriving DecidableEq, Repr

def Declared.identifier (name : String) (type : DataType) (location : Location) :
    Declared → Identifier
  | .variable => .var ⟨name, type, false, location⟩
  | .constantVariable => .var ⟨name, type, true, location⟩
  | .constant => .constant ⟨name, type, location⟩

/-- `name : [type]`; a type that is not written is `auto` and has the place of the name. -/
structure DeclarationHead where
  name : Token
  type : DataType
  typeLocation : Location
deriving Repr

namespace Parse

def declarationHead : Parse DeclarationHead := do
  let name ← expect .identifier "identifier"
  expectDelimiter ":"
  match ← accept .identifier with
  | some t => return ⟨name, ← liftExcept (typeOfName t), t.location⟩
  | none => return ⟨name, .auto, name.location⟩

/-- Declares the name with the value of the expression that follows. -/
def declareValue (head : DeclarationHead) (declared : Declared) : Parse Node := do
  let value ← expression
  let type ← liftExcept (value.typeAs head.type head.typeLocation)
  let identifier := declared.identifier head.name.text type head.name.location
  declare identifier
  return .binary .assignment identifier.toNode value head.name.location

/-- A variable, behind its head. -/
def declareVariable (head : DeclarationHead) : Parse Node := do
  if ← acceptOperator "=" then declareValue head .variable
  else
    match head.type with
    | .auto => fail .autoWithoutExpression
    | .void => throw ⟨.voidDataType, head.typeLocation⟩
    | type =>
      let identifier := Declared.variable.identifier head.name.text type head.name.location
      declare identifier
      return identifier.toNode

def parameter : Parse Node := do
  let head ← declarationHead
  if ← acceptDelimiter ":" then declareValue head .constantVariable
  else declareVariable head

/-- One parameter or more, divided by commas. A parameter takes at least one token. -/
def parametersUpTo : Nat → Parse (List Node)
  | 0 => fail .unexpectedEnd
  | n + 1 => do
    if !(← get).stream.startsDeclaration then fail (.expected "parameter declaration")
    let first ← parameter
    if ← acceptDelimiter "," then return first :: (← parametersUpTo n)
    else return [first]

def parameters : Parse (List Node) := do
  expectDelimiter "("
  let p ← get
  let nodes ← if p.stream.current.isDelimiter ")" then pure []
    else parametersUpTo p.stream.tokens.length
  expectDelimiter ")"
  return nodes

/-- A type behind `->` stands for the one in front of the parameters; without both it is `void`. -/
def resultType (declared : DataType) : Parse DataType := do
  if ← acceptOperator "->" then
    let (type, location) ← dataType
    if type = .auto then throw ⟨.autoReturnType, location⟩
    return type
  else
    return if declared = .auto then .void else declared

def freshFunction : Parse FunctionId :=
  modifyGet fun p => (p.nextFunction, { p with nextFunction := p.nextFunction + 1 })

def define (f : Function) : Parse Unit := modify fun p => { p with defined := f.id :: p.defined }

/-- A function, behind its head; `body` reads the block that it is told the name of. -/
def declareFunction (body : String → Parse Scope) (head : DeclarationHead) : Parse Node := do
  openFrame
  let nodes ← parameters
  let returns ← resultType head.type
  endHeader
  let frame ← closeFrame
  let f : Function := ⟨← freshFunction, head.name.text, returns, head.name.location⟩
  declare (.function f)
  reopenFrame frame
  let scope ← body "function"
  define f
  return .function f nodes (some scope)

/-- Any declaration but a parameter. What ends it is left, except that a function ends with its body. -/
def declaration (body : String → Parse Scope) : Parse Node := do
  let head ← declarationHead
  if ← acceptDelimiter ":" then
    if (← get).stream.startsParameters then declareFunction body head
    else declareValue head .constant
  else declareVariable head

def isFunction : Node → Bool
  | .function .. => true
  | _ => false

def declarationStatement (body : String → Parse Scope) : Parse Node := do
  let node ← declaration body
  if !isFunction node then expectEndOfStatement
  return node

end Parse

end Offside
