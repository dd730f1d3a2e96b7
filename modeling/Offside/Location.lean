/-!
# Places in a source text

Lines and columns start at 1 and count characters. They have no bound: counters of 32 bits give the same
places as long as a text has fewer than 2 ^ 32 lines and each of them fewer than 2 ^ 32 - 1 characters.
-/

namespace Offside

set_option autoImplicit false

structure Location where
  file : String
  line : Nat
  column : Nat
deriving DecidableEq, Repr, Inhabited

namespace Location

/-- The place of something that stands in no source text. -/
def nowhere : Location := ⟨"<null>", 0, 0⟩

def toText (l : Location) : String :=
  l.file ++ ":" ++ toString l.line ++ ":" ++ toString l.column

end Location

end Offside
