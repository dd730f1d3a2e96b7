import Offside.Declaration

/-!
# Statements

A statement is a declaration, a branch, a loop or an expression. The block of a branch or a loop is
read by `body`, which is told what the block belongs to.
-/

namespace Offside

set_option autoImplicit false

/-- The name of the loop variable where none is written. -/
def implicitLoopVariable : String := "it"

namespace Parse

variable (body : String → Parse Scope)

/-- A block with a frame of its own. -/
def framedBody (construct : String) : Parse Scope := do
  openFrame
  body construct

/-- The condition of the construct that begins at `place`. -/
def condition (place : Location) : Parse Node := do
  let node ← expression
  liftExcept (node.checkBoolean place)
  return node

/-- An `else` belongs to the branch only at the level of the branch. -/
def alternative : Parse (Option Scope) := do
  let p ← get
  let t := p.stream.current
  if t.isKeyword .orElse ∧ t.level = p.level then
    let _ ← advance
    endHeader
    return some (← framedBody body "else")
  else return none

def branch : Parse Node := do
  let t ← advance
  let test ← condition t.location
  endHeader
  let consequence ← framedBody body "if"
  return .branch test consequence (← alternative body) t.location

def whileLoop : Parse Node := do
  let t ← advance
  let test ← condition t.location
  endHeader
  return .whileLoop test (← framedBody body "while") t.location

/-- A declaration that gives a variable its value. -/
def initializesVariable : Node → Bool
  | .binary _ (.var _) _ _ => true
  | _ => false

/-- The declaration in front of the first comma, if there is one. -/
def loopInit (t : Token) : Parse (Option Node) := do
  let stream := (← get).stream
  if stream.startsDeclaration then
    let node ← declaration body
    if initializesVariable node then return some node
    else throw ⟨.expectedVariableDeclaration, node.locationOr t.location⟩
  else if stream.current.isDelimiter "," then return none
  else fail .expectedVariableDeclaration

def loopCondition (t : Token) : Parse (Option Node) := do
  if (← current).isDelimiter "," then return none
  else return some (← condition t.location)

def loopIncrement : Parse (Option Node) := do
  if (← current).kind = .endOfStatement then return none
  else
    let node ← expression
    let _ ← liftExcept node.type?
    return some node

/-- `for [init], [condition], [increment]`; what `init` declares lives in the frame of the body. -/
def threePartLoop : Parse Node := do
  let t ← advance
  openFrame
  let init ← loopInit body t
  expectDelimiter ","
  let test ← loopCondition t
  expectDelimiter ","
  let increment ← loopIncrement
  endHeader
  return .forLoop init test increment (← body "for") t.location

/-- The name in front of a range, if one is written. -/
def loopName : Parse (Option Token) := do
  if (← get).stream.startsDeclaration then
    let name ← advance
    let _ ← advance
    return some name
  else return none

/-- `for [name :] range`; the loop variable has the type of the range, which does not see it. -/
def rangeLoop : Parse Node := do
  let t ← advance
  let name ← loopName
  let range ← expression
  let type ← liftExcept range.type?
  endHeader
  let (text, location) :=
    match name with
    | some n => (n.text, n.location)
    | none => (implicitLoopVariable, t.location)
  let identifier := Declared.variable.identifier text type location
  openFrame
  declare identifier
  let node := Node.binary .assignment identifier.toNode range location
  return .rangeLoop node (← body "for") t.location

def forLoop : Parse Node := do
  if (← get).stream.startsThreePartLoop then threePartLoop body else rangeLoop body

def keywordStatement (keyword : Keyword) : Parse Node := do
  if !(← get).keywords.contains keyword then fail (.unexpectedToken keyword.word)
  match keyword with
  | .ifThen => branch body
  | .whileLoop => whileLoop body
  | .forLoop => forLoop body
  | .orElse => fail (.unexpectedToken keyword.word)

def expressionStatement : Parse Node := do
  let node ← expression
  let _ ← liftExcept node.type?
  expectEndOfStatement
  return node

def statement : Parse Node := do
  let stream := (← get).stream
  if stream.startsDeclaration then declarationStatement body
  else
    match stream.current.keyword with
    | some keyword => keywordStatement body keyword
    | none => expressionStatement

end Parse

end Offside
