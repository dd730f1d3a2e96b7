import Offside.Compile
import Offside.Tree.Dump
import Offside.Tree.Layout

/-!
# The command line

What the program prints about a source text: on request the tokens, the tree and how long the work
took. The first diagnostic ends it; what was printed before stays.
-/

namespace Offside.CommandLine

set_option autoImplicit false

structure Options where
  tokens : Bool
  tree : Bool
  durations : Bool
deriving DecidableEq, Repr

/-- How long each part of the work took, as texts. -/
structure Durations where
  tokenized : String
  parsed : String
  total : String
deriving DecidableEq, Repr

structure Report where
  output : String
  errors : String
  exitCode : Nat
deriving DecidableEq, Repr

def linesOf (lines : List String) : String := String.join (lines.map (· ++ "\n"))

def failure (output : String) (d : Diagnostic) (source : String) : Report :=
  ⟨output, d.render source, 1⟩

/-- What is printed once the tokens are known. -/
def tokenLines (options : Options) (durations : Durations) (tokens : List Token) : List String :=
  (if options.durations then ["Tokenized in " ++ durations.tokenized] else []) ++
    if options.tokens then tokens.map Token.toText else []

/-- What is printed once the tree is known. Frames show their names in the order of code points. -/
def treeLines (options : Options) (durations : Durations) (tree : Scope) : List String :=
  (if options.durations then
    ["Parsed in " ++ durations.parsed, "Total time: " ++ durations.total] else []) ++
    if options.tree then [Layout.indented (tree.dump Frame.sorted)] else []

def report (options : Options) (durations : Durations) (source : String)
    (tokens : Except Diagnostic (List Token)) (tree : Except Diagnostic Scope) : Report :=
  match tokens with
  | .error d => failure "" d source
  | .ok tokens =>
    let output := linesOf (tokenLines options durations tokens)
    match tree with
    | .error d => failure output d source
    | .ok tree => ⟨output ++ linesOf (treeLines options durations tree), "", 0⟩

def run (options : Options) (durations : Durations) (file source : String) : Report :=
  let tokens := tokenize source file
  report options durations source tokens (tokens >>= parse)

end Offside.CommandLine
