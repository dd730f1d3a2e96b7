import Offside.Block
import Offside.Tokenize

/-!
# From a source text to its tree

The tree has its names resolved, its types checked and its constant expressions folded.
-/

namespace Offside

set_option autoImplicit false

def compile (file : String) (source : String) : Except Diagnostic Scope := do
  parse (← tokenize source file)

end Offside
