import Offside.Diagnostic
import Offside.TokenStream
import Offside.Tree.Node

/-!
# The state of a parser

A parser moves along a token stream, with a symbol table of the frames that are open and the level of
the block that it is in. Where it fails, it stays as it was at that moment: frames stay open and the
stacks of the expression keep what is on them.
-/

namespace Offside

set_option autoImplicit false

/-- An operator that waits for its right operand, with the place of its token. -/
structure PendingOperator where
  operator : Operator
  location : Location
deriving DecidableEq, Repr

/--
The stacks are those of the last expression, their tops first. `keywords` are the words that begin a
statement, `defined` the functions whose bodies are complete.
-/
structure Parser where
  stream : TokenStream
  level : Nat
  symbols : SymbolTable
  operands : List Node
  operators : List PendingOperator
  keywords : List Keyword
  nextFunction : FunctionId
  defined : List FunctionId

def statementKeywords : List Keyword := [.ifThen, .whileLoop, .forLoop]

def Parser.ofTokens (tokens : List Token) (keywords : List Keyword) : Parser :=
  ⟨.ofTokens tokens, 0, .empty, [], [], keywords, 0, []⟩

abbrev Parse := EStateM Diagnostic Parser

namespace Parse

def current : Parse Token := return (← get).stream.current

/-- The current token, which is left behind. -/
def advance : Parse Token := do
  let t ← current
  modify fun p => { p with stream := p.stream.advance }
  return t

/-- A fault at the current token. -/
def fail {α : Type} (fault : Fault) : Parse α := do throw ⟨fault, (← current).location⟩

def accept (kind : Token.Kind) : Parse (Option Token) := do
  if (← current).kind = kind then return some (← advance) else return none

def acceptDelimiter (text : String) : Parse Bool := do
  if (← current).isDelimiter text then
    let _ ← advance
    return true
  else return false

def acceptOperator (text : String) : Parse Bool := do
  if (← current).isOperator text then
    let _ ← advance
    return true
  else return false

/-- `what` is what the message calls the token that is missing. -/
def expect (kind : Token.Kind) (what : String) : Parse Token := do
  match ← accept kind with
  | some t => return t
  | none => fail (.expected what)

def expectDelimiter (text : String) : Parse Unit := do
  if !(← acceptDelimiter text) then fail (.expected ("'" ++ text ++ "'"))

def expectEndOfStatement : Parse Unit := do
  let _ ← expect .endOfStatement "end of statement"

/-- A block has to follow. -/
def expectMore : Parse Unit := do
  if (← current).kind = .endOfFile then fail .unexpectedEnd

/-- A line that is followed by a block ends here. -/
def endHeader : Parse Unit := do
  expectEndOfStatement
  expectMore

/-! ## Frames -/

def openFrame : Parse Unit := modify fun p => { p with symbols := p.symbols.openFrame }

def reopenFrame (frame : Frame) : Parse Unit :=
  modify fun p => { p with symbols := p.symbols.reopen frame }

/-- The frame that is closed; an empty one if none is open. -/
def closeFrame : Parse Frame :=
  modifyGet fun p =>
    let (frame, symbols) := p.symbols.close
    (frame.getD [], { p with symbols })

/-- A name that is taken is reported where it is declared again. -/
def declare (i : Identifier) : Parse Unit := do
  let p ← get
  match p.symbols.declare? i with
  | some symbols => set { p with symbols }
  | none => throw ⟨.alreadyDeclared i.name, i.location⟩

/-! ## Types and checks -/

def liftExcept {α : Type} : Except Diagnostic α → Parse α
  | .ok a => pure a
  | .error d => throw d

/-- The name of a type, and its place. -/
def typeOfName (t : Token) : Except Diagnostic DataType :=
  match DataType.ofName? t.text with
  | some type =>
    if t.kind = .identifier then .ok type else .error ⟨.invalidDataType t.text, t.location⟩
  | none => .error ⟨.invalidDataType t.text, t.location⟩

def dataType : Parse (DataType × Location) := do
  let t ← expect .identifier "data type"
  return (← liftExcept (typeOfName t), t.location)

end Parse

end Offside
