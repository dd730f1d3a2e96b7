import Offside.Statement

/-!
# Blocks

A block is the lines of one level. A line that is one level deeper begins a block inside of it, which
must come after a statement; one that is one level shallower ends it; no line may be further away. The
end of the tokens ends every block.
-/

namespace Offside

set_option autoImplicit false

namespace Parse

/-- Where a line at `line` belongs, seen from a block at `level` with or without a statement. -/
inductive LinePlace where
  | here | deeper | outside | nowhere
deriving DecidableEq, Repr

def LinePlace.of (level : Nat) (hasStatement : Bool) (line : Nat) : LinePlace :=
  if line = level then .here
  else if line = level + 1 ∧ hasStatement then .deeper
  else if line + 1 = level then .outside
  else .nowhere

/--
The statements of the block from the current line on, behind `before`, which has the last one first.
Each takes a token, so there are no more of them than tokens.
-/
def lines (statement : Parse Node) (nested : Parse Scope) (level : Nat) :
    Nat → List Node → Parse (List Node)
  | 0, _ => fail .unexpectedEnd
  | n + 1, before => do
    let t ← current
    if t.kind = .endOfFile then return before.reverse
    match LinePlace.of level (!before.isEmpty) t.level with
    | .here => lines statement nested level n ((← statement) :: before)
    | .deeper =>
      openFrame
      lines statement nested level n (.scope (← nested) :: before)
    | .outside => return before.reverse
    | .nowhere => fail .scopeChange

/-- The block of a construct: one level deeper than the construct, and not empty. -/
def bodyOf (block : Nat → Parse Scope) (construct : String) : Parse Scope := do
  let p ← get
  let t := p.stream.current
  if t.kind = .endOfFile ∨ t.level ≤ p.level then fail (.expectedScope construct)
  block (p.level + 1)

/--
The block at `level`, at most `depth` blocks deep. Whoever calls opens the frame of the block; it is
closed here.
-/
def blockUpTo : Nat → Nat → Parse Scope
  | 0, _ => fail .unexpectedEnd
  | depth + 1, level => do
    let p ← get
    set { p with level }
    let statements ← lines (statement (bodyOf (blockUpTo depth))) (blockUpTo depth (level + 1))
      level p.stream.tokens.length []
    modify fun q => { q with level := p.level }
    return ⟨statements, ← closeFrame⟩

/-- Every block inside another one begins behind a token, so blocks are no deeper than there are tokens. -/
def block (level : Nat) : Parse Scope := do blockUpTo (← get).stream.tokens.length level

def body (construct : String) : Parse Scope := bodyOf block construct

end Parse

/-- The tree of a whole program. -/
def parse (tokens : List Token) : Except Diagnostic Scope :=
  let run : Parse Scope := do
    Parse.openFrame
    Parse.block 0
  match run (.ofTokens tokens statementKeywords) with
  | .ok scope _ => .ok scope
  | .error d _ => .error d

end Offside
