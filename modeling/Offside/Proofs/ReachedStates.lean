import Offside.Proofs.CoupledRuns

/-!
# The states of the parser

The parser and its expressions are made of a number of actions. A state is reached if actions lead to it from
the beginning of the tokens, whether they fail or not. No action tells streams apart that are coupled.
-/

namespace Offside

set_option autoImplicit false

open Execution

namespace Execution

variable {ε σ α : Type} {S : σ → σ → Prop}

/-- The state that an action leaves, whether it fails or not. -/
def stateAfter : EStateM.Result ε σ α → σ
  | .ok _ s => s
  | .error _ s => s

theorem Matches.stateAfter {r r' : EStateM.Result ε σ α} (h : Matches S r r') :
    S (stateAfter r) (stateAfter r') := by
  cases h with
  | ok h => exact h
  | error h => exact h

end Execution

/-! ## Actions -/

/-- The actions that an expression is made of. -/
inductive Expression.IsAction : {α : Type} → Expression.Build α → Prop where
  | fail {α : Type} (fault : Fault) : IsAction (Expression.fail fault : Expression.Build α)
  | advance : IsAction Expression.advance
  | reduce (top : PendingOperator) : IsAction (Expression.reduce top)
  | reduceWhile (ready : Operator → Bool) (stack : List PendingOperator) :
      IsAction (Expression.reduceWhile ready stack)
  | pushOperator (o : Operator) (place : Location) : IsAction (Expression.pushOperator o place)
  | openParenthesis (t : Token) : IsAction (Expression.openParenthesis t)
  | closeParenthesis : IsAction Expression.closeParenthesis
  | pushOperand (n : Node) (isVariable : Bool) : IsAction (Expression.pushOperand n isVariable)
  | literal (t : Token) : IsAction (Expression.literal t)
  | identifier (symbols : SymbolTable) (t : Token) : IsAction (Expression.identifier symbols t)
  | operator (symbols : SymbolTable) (t : Token) : IsAction (Expression.operator symbols t)
  | step (symbols : SymbolTable) : IsAction (Expression.step symbols)
  | steps (symbols : SymbolTable) (n : Nat) : IsAction (Expression.steps symbols n)
  | finish : IsAction Expression.finish
  | tree (symbols : SymbolTable) : IsAction (Expression.tree symbols)

namespace Parse

/-- The blocks inside of a block have a bound on their depth; the outermost one finds its own. -/
inductive ReadsBlocks : (Nat → Parse Scope) → Prop where
  | block : ReadsBlocks Parse.block
  | blockUpTo (depth : Nat) : ReadsBlocks (Parse.blockUpTo depth)

/-- The actions that the parser is made of. -/
inductive IsAction : {α : Type} → Parse α → Prop where
  | current : IsAction Parse.current
  | advance : IsAction Parse.advance
  | fail {α : Type} (fault : Fault) : IsAction (Parse.fail fault : Parse α)
  | accept (kind : Token.Kind) : IsAction (Parse.accept kind)
  | acceptDelimiter (text : String) : IsAction (Parse.acceptDelimiter text)
  | acceptOperator (text : String) : IsAction (Parse.acceptOperator text)
  | expect (kind : Token.Kind) (what : String) : IsAction (Parse.expect kind what)
  | expectDelimiter (text : String) : IsAction (Parse.expectDelimiter text)
  | expectEndOfStatement : IsAction Parse.expectEndOfStatement
  | expectMore : IsAction Parse.expectMore
  | endHeader : IsAction Parse.endHeader
  | seekComma (bound depth : Nat) : IsAction (Parse.seekComma bound depth)
  | seekThreeParts : IsAction Parse.seekThreeParts
  | seekParameters : IsAction Parse.seekParameters
  | enter (level : Nat) : IsAction (modify fun p => { p with level } : Parse Unit)
  | openFrame : IsAction Parse.openFrame
  | reopenFrame (frame : Frame) : IsAction (Parse.reopenFrame frame)
  | closeFrame : IsAction Parse.closeFrame
  | declare (i : Identifier) : IsAction (Parse.declare i)
  | freshFunction : IsAction Parse.freshFunction
  | define (f : Function) : IsAction (Parse.define f)
  | liftExcept {α : Type} (x : Except Diagnostic α) : IsAction (Parse.liftExcept x)
  | dataType : IsAction Parse.dataType
  | expressionTree : IsAction Parse.expressionTree
  | expression : IsAction Parse.expression
  | condition (place : Location) : IsAction (Parse.condition place)
  | declarationHead : IsAction Parse.declarationHead
  | declareValue (head : DeclarationHead) (declared : Declared) :
      IsAction (Parse.declareValue head declared)
  | declareVariable (head : DeclarationHead) : IsAction (Parse.declareVariable head)
  | parameter : IsAction Parse.parameter
  | parametersUpTo (n : Nat) : IsAction (Parse.parametersUpTo n)
  | parameters : IsAction Parse.parameters
  | resultType (declared : DataType) : IsAction (Parse.resultType declared)
  | loopCondition (t : Token) : IsAction (Parse.loopCondition t)
  | loopIncrement : IsAction Parse.loopIncrement
  | loopName : IsAction Parse.loopName
  | expressionStatement : IsAction Parse.expressionStatement
  | declareFunction {read : Nat → Parse Scope} (h : ReadsBlocks read) (head : DeclarationHead) :
      IsAction (Parse.declareFunction (bodyOf read) head)
  | declaration {read : Nat → Parse Scope} (h : ReadsBlocks read) :
      IsAction (Parse.declaration (bodyOf read))
  | declarationStatement {read : Nat → Parse Scope} (h : ReadsBlocks read) :
      IsAction (Parse.declarationStatement (bodyOf read))
  | framedBody {read : Nat → Parse Scope} (h : ReadsBlocks read) (construct : String) :
      IsAction (Parse.framedBody (bodyOf read) construct)
  | alternative {read : Nat → Parse Scope} (h : ReadsBlocks read) :
      IsAction (Parse.alternative (bodyOf read))
  | branch {read : Nat → Parse Scope} (h : ReadsBlocks read) : IsAction (Parse.branch (bodyOf read))
  | whileLoop {read : Nat → Parse Scope} (h : ReadsBlocks read) :
      IsAction (Parse.whileLoop (bodyOf read))
  | loopInit {read : Nat → Parse Scope} (h : ReadsBlocks read) (t : Token) :
      IsAction (Parse.loopInit (bodyOf read) t)
  | threePartLoop {read : Nat → Parse Scope} (h : ReadsBlocks read) :
      IsAction (Parse.threePartLoop (bodyOf read))
  | rangeLoop {read : Nat → Parse Scope} (h : ReadsBlocks read) :
      IsAction (Parse.rangeLoop (bodyOf read))
  | forLoop {read : Nat → Parse Scope} (h : ReadsBlocks read) : IsAction (Parse.forLoop (bodyOf read))
  | keywordStatement {read : Nat → Parse Scope} (h : ReadsBlocks read) (keyword : Keyword) :
      IsAction (Parse.keywordStatement (bodyOf read) keyword)
  | statement {read : Nat → Parse Scope} (h : ReadsBlocks read) :
      IsAction (Parse.statement (bodyOf read))
  | lines {read : Nat → Parse Scope} (h : ReadsBlocks read) (level n : Nat) (before : List Node) :
      IsAction (Parse.lines (Parse.statement (bodyOf read)) (read (level + 1)) level n before)
  | bodyOf {read : Nat → Parse Scope} (h : ReadsBlocks read) (construct : String) :
      IsAction (Parse.bodyOf read construct)
  | block {read : Nat → Parse Scope} (h : ReadsBlocks read) (level : Nat) : IsAction (read level)

end Parse

/-- A parser that comes about on the way through the tokens, also as what a failed action has left. -/
inductive Reached (tokens : List Token) : Parser → Prop where
  | start : Reached tokens (.ofTokens tokens statementKeywords)
  | after {α : Type} {x : Parse α} {p : Parser} :
      Reached tokens p → Parse.IsAction x → Reached tokens (stateAfter (x p))

/-- An expression that comes about where a parser reads one. -/
inductive ReachedExpression (tokens : List Token) : Expression → Prop where
  | start {p : Parser} : Reached tokens p → ReachedExpression tokens (.start p.stream)
  | after {α : Type} {x : Expression.Build α} {e : Expression} :
      ReachedExpression tokens e → Expression.IsAction x → ReachedExpression tokens (stateAfter (x e))

/-! ## No action tells coupled streams apart -/

section Coupled

variable {R : TokenStream → TokenStream → Prop} (hR : Coupling R) {α : Type}
include hR

theorem Expression.IsAction.couples {x : Expression.Build α} (h : Expression.IsAction x) :
    Expression.Couples R x := by
  cases h with
  | fail => exact couples_fail hR _
  | advance => exact couples_advance hR
  | reduce => exact couples_reduce _
  | reduceWhile => exact couples_reduceWhile _ _
  | pushOperator => exact couples_pushOperator _ _
  | openParenthesis => exact couples_openParenthesis hR _
  | closeParenthesis => exact couples_closeParenthesis hR
  | pushOperand => exact couples_pushOperand _ _
  | literal => exact couples_literal hR _
  | identifier => exact couples_identifier hR _
  | operator => exact couples_operator hR _
  | step => exact couples_step hR
  | steps => exact couples_steps hR _
  | finish => exact couples_finish hR
  | tree => exact couples_tree hR

namespace Parse

theorem ReadsBlocks.couples {read : Nat → Parse Scope} (h : ReadsBlocks read) (level : Nat) :
    Couples R (read level) := by
  cases h with
  | block => exact couples_block hR level
  | blockUpTo depth => exact couples_blockUpTo hR depth level

theorem ReadsBlocks.couples_bodyOf {read : Nat → Parse Scope} (h : ReadsBlocks read)
    (construct : String) : Couples R (bodyOf read construct) :=
  Parse.couples_bodyOf hR (h.couples hR) construct

theorem IsAction.couples {x : Parse α} (h : IsAction x) : Couples R x := by
  cases h with
  | current => exact couples_current hR
  | advance => exact couples_advance hR
  | fail => exact couples_fail hR _
  | accept => exact couples_accept hR _
  | acceptDelimiter => exact couples_acceptDelimiter hR _
  | acceptOperator => exact couples_acceptOperator hR _
  | expect => exact couples_expect hR _ _
  | expectDelimiter => exact couples_expectDelimiter hR _
  | expectEndOfStatement => exact couples_expectEndOfStatement hR
  | expectMore => exact couples_expectMore hR
  | endHeader => exact couples_endHeader hR
  | seekComma => exact couples_seekComma hR _ _
  | seekThreeParts => exact couples_seekThreeParts hR
  | seekParameters => exact couples_seekParameters hR
  | enter => exact couples_enter _
  | openFrame => exact couples_openFrame
  | reopenFrame => exact couples_reopenFrame _
  | closeFrame => exact couples_closeFrame
  | declare => exact couples_declare _
  | freshFunction => exact couples_freshFunction
  | define => exact couples_define _
  | liftExcept => exact couples_liftExcept _
  | dataType => exact couples_dataType hR
  | expressionTree => exact couples_expressionTree hR
  | expression => exact couples_expression hR
  | condition => exact couples_condition hR _
  | declarationHead => exact couples_declarationHead hR
  | declareValue => exact couples_declareValue hR _ _
  | declareVariable => exact couples_declareVariable hR _
  | parameter => exact couples_parameter hR
  | parametersUpTo => exact couples_parametersUpTo hR _
  | parameters => exact couples_parameters hR
  | resultType => exact couples_resultType hR _
  | loopCondition => exact couples_loopCondition hR _
  | loopIncrement => exact couples_loopIncrement hR
  | loopName => exact couples_loopName hR
  | expressionStatement => exact couples_expressionStatement hR
  | declareFunction h => exact couples_declareFunction hR _ (h.couples_bodyOf hR)
  | declaration h => exact couples_declaration hR (h.couples_bodyOf hR)
  | declarationStatement h => exact couples_declarationStatement hR (h.couples_bodyOf hR)
  | framedBody h => exact couples_framedBody (h.couples_bodyOf hR) _
  | alternative h => exact couples_alternative hR (h.couples_bodyOf hR)
  | branch h => exact couples_branch hR (h.couples_bodyOf hR)
  | whileLoop h => exact couples_whileLoop hR (h.couples_bodyOf hR)
  | loopInit h => exact couples_loopInit hR (h.couples_bodyOf hR) _
  | threePartLoop h => exact couples_threePartLoop hR (h.couples_bodyOf hR)
  | rangeLoop h => exact couples_rangeLoop hR (h.couples_bodyOf hR)
  | forLoop h => exact couples_forLoop hR (h.couples_bodyOf hR)
  | keywordStatement h => exact couples_keywordStatement hR (h.couples_bodyOf hR) _
  | statement h => exact couples_statement hR (h.couples_bodyOf hR)
  | lines h =>
    exact couples_lines hR (couples_statement hR (h.couples_bodyOf hR)) (h.couples hR _) _ _ _
  | bodyOf h => exact h.couples_bodyOf hR _
  | block h => exact h.couples hR _

end Parse

end Coupled

end Offside
