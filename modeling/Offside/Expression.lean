import Offside.Parser
import Offside.Tree.Folding

/-!
# Expressions

Operators find their operands by precedence. Operands and operators wait on two stacks; an operator
takes its operands as soon as one comes that does not bind tighter. An expression ends in front of
the end of its statement, of a comma, or of a closing parenthesis that it did not open.
-/

namespace Offside

set_option autoImplicit false

/--
An expression in the making. `afterVariable` says that the token before was a variable, so that `++`
and `--` stand behind it.
-/
structure Expression where
  stream : TokenStream
  operands : List Node
  operators : List PendingOperator
  wantsOperand : Bool
  afterVariable : Bool
  parentheses : Nat

namespace Expression

def start (stream : TokenStream) : Expression := ⟨stream, [], [], true, false, 0⟩

abbrev Build := EStateM Diagnostic Expression

def fail {α : Type} (fault : Fault) : Build α := do
  throw ⟨fault, (← get).stream.current.location⟩

def advance : Build Unit := modify fun e => { e with stream := e.stream.advance }

/-! ## Taking operands -/

/-- Only a variable that is not constant can be assigned to. -/
def checkTarget (top : PendingOperator) (left : Node) : Except Diagnostic Unit :=
  if top.operator.group ≠ .assignment then .ok ()
  else
    match left with
    | .var v =>
      if v.isConstant then .error ⟨.assignmentToConstant v.name, top.location⟩ else .ok ()
    | _ => .error ⟨.invalidAssignmentTarget, top.location⟩

/-- The operator, no longer on its stack, takes its operands from theirs. -/
def reduce (top : PendingOperator) : Build Unit := do
  let e ← get
  match top.operator.isUnary, e.operands with
  | true, operand :: rest =>
    set { e with operands := .unary top.operator operand top.location :: rest }
  | false, right :: left :: rest =>
    match checkTarget top left with
    | .ok () => set { e with operands := .binary top.operator left right top.location :: rest }
    | .error d =>
      set { e with operands := rest }
      throw d
  | _, _ => throw ⟨.expectedOperand, top.location⟩

/-- Takes operators off the stack, which is `stack`, as long as `ready` holds of its top. -/
def reduceWhile (ready : Operator → Bool) : List PendingOperator → Build Unit
  | [] => pure ()
  | top :: below =>
    if ready top.operator then do
      modify fun e => { e with operators := below }
      reduce top
      reduceWhile ready below
    else pure ()

/-- Whether an operator on the stack takes its operands before `incoming` goes on top. -/
def bindsBefore (incoming waiting : Operator) : Bool :=
  match incoming.associativity with
  | .rightToLeft => incoming.precedence < waiting.precedence
  | .leftToRight => incoming.precedence ≤ waiting.precedence

def pushOperator (operator : Operator) (location : Location) : Build Unit := do
  reduceWhile (bindsBefore operator) (← get).operators
  modify fun e => { e with operators := ⟨operator, location⟩ :: e.operators }

/-! ## Which operator a symbol is -/

/-- The two forms of `++` and `--`, and what they are called. -/
def stepForms? : Operator → Option (Operator × Operator × String)
  | .preIncrement => some (.preIncrement, .postIncrement, "increment")
  | .preDecrement => some (.preDecrement, .postDecrement, "decrement")
  | _ => none

/--
The operator that `t`, whose symbol alone names `operator`, is at this point; `nextIsVariable` says
whether a variable comes next.
-/
def resolve (t : Token) (operator : Operator) (wantsOperand afterVariable nextIsVariable : Bool) :
    Except Diagnostic Operator :=
  let unexpected : Except Diagnostic Operator := .error ⟨.unexpectedOperator t.text, t.location⟩
  match stepForms? operator with
  | some (before, behind, noun) =>
    if afterVariable then .ok behind
    else if !nextIsVariable then .error ⟨.stepNeedsVariable noun, t.location⟩
    else if wantsOperand then .ok before
    else unexpected
  | none =>
    if wantsOperand then
      match operator with
      | .add => .ok .unaryPlus
      | .sub => .ok .unaryMinus
      | _ => if operator.isUnary then .ok operator else unexpected
    else if operator.isUnary then unexpected
    else .ok operator

def isVariable (symbols : SymbolTable) (t : Token) : Bool :=
  t.kind == .identifier &&
    match symbols.lookup? t.text with
    | some (.var _) => true
    | _ => false

/-! ## One token -/

def openParenthesis (t : Token) : Build Unit := do
  if !(← get).wantsOperand then fail .unexpectedParenthesis
  advance
  modify fun e => { e with
    operators := ⟨.openParenthesis, t.location⟩ :: e.operators
    afterVariable := false
    parentheses := e.parentheses + 1 }

def closeParenthesis : Build Unit := do
  if (← get).wantsOperand then fail .expectedOperand
  advance
  modify fun e => { e with parentheses := e.parentheses - 1 }
  reduceWhile (· ≠ .openParenthesis) (← get).operators
  modify fun e => { e with operators := e.operators.tail, afterVariable := false }

def pushOperand (n : Node) (isVariable : Bool) : Build Unit :=
  modify fun e => { e with
    operands := n :: e.operands
    wantsOperand := false
    afterVariable := isVariable }

def literal (t : Token) : Build Unit := do
  if !(← get).wantsOperand then fail .unexpectedLiteral
  advance
  match Literal.ofToken t with
  | .ok l => pushOperand (.literal l) false
  | .error d => throw d

def identifier (symbols : SymbolTable) (t : Token) : Build Unit := do
  if !(← get).wantsOperand then fail (.unexpectedIdentifier t.text)
  match symbols.lookup? t.text with
  | some (.var v) =>
    advance
    pushOperand (.var v) true
  | some (.function f) =>
    advance
    pushOperand (.reference f) false
  | some (.constant _) => fail (.notAnOperand t.text)
  | none => fail (.unknownIdentifier t.text)

def operator (symbols : SymbolTable) (t : Token) : Build Unit := do
  match Operator.ofSymbol? t.text with
  | none => fail (.invalidOperator t.text)
  | some symbolOperator =>
    advance
    let e ← get
    let nextIsVariable := isVariable symbols e.stream.current
    match resolve t symbolOperator e.wantsOperand e.afterVariable nextIsVariable with
    | .error d => throw d
    | .ok operator =>
      pushOperator operator t.location
      modify fun e => { e with
        wantsOperand := operator ≠ .postIncrement ∧ operator ≠ .postDecrement
        afterVariable := false }

/-- Takes the current token into the expression, unless the expression ends in front of it. -/
def step (symbols : SymbolTable) : Build Bool := do
  let e ← get
  let t := e.stream.current
  match t.kind with
  | .endOfStatement | .endOfFile => return false
  | .delimiter =>
    if t.text = "," ∨ t.text = ")" ∧ e.parentheses = 0 then return false
    else if t.text = "(" then openParenthesis t
    else if t.text = ")" then closeParenthesis
    else fail (.unexpectedToken t.text)
    return true
  | .literal =>
    literal t
    return true
  | .identifier =>
    identifier symbols t
    return true
  | .operator =>
    operator symbols t
    return true
  | .keyword => fail (.unexpectedToken t.text)

/-! ## The whole expression -/

/-- Every step but the last takes a token, so no more steps are needed than there are tokens. -/
def steps (symbols : SymbolTable) : Nat → Build Unit
  | 0 => fail .unexpectedEnd
  | n + 1 => do if ← step symbols then steps symbols n

/-- The one operand that is left when all operators have theirs. -/
def finish : Build Node := do
  if (← get).parentheses > 0 then fail (.expected "')'")
  reduceWhile (fun _ => true) (← get).operators
  let e ← get
  match e.operands with
  | [] => fail .expectedExpression
  | n :: rest =>
    set { e with operands := rest }
    if rest.isEmpty then return n else fail .expectedExpression

def tree (symbols : SymbolTable) : Build Node := do
  steps symbols (← get).stream.tokens.length
  finish

end Expression

/-- What stays of an expression in the parser. -/
def Parser.keep (p : Parser) (e : Expression) : Parser :=
  { p with stream := e.stream, operands := e.operands, operators := e.operators }

namespace Parse

/-- The tree of an expression, before folding. The symbol table is only read. -/
def expressionTree : Parse Node := fun p =>
  match Expression.tree p.symbols (.start p.stream) with
  | .ok n e => .ok n (p.keep e)
  | .error d e => .error d (p.keep e)

def expression : Parse Node := do liftExcept (← expressionTree).fold

end Parse

end Offside
