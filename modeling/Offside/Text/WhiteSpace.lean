import Offside.Text.CharSet

/-!
# White space

The property `White_Space` of the Unicode character database.
-/

namespace Offside.Text

set_option autoImplicit false

/-- Code points with the property. -/
def whiteSpace : CharSet where
  ranges :=
    [(0x0009, 0x000D), (0x0020, 0x0020), (0x0085, 0x0085), (0x00A0, 0x00A0), (0x1680, 0x1680),
     (0x2000, 0x200A), (0x2028, 0x2029), (0x202F, 0x202F), (0x205F, 0x205F), (0x3000, 0x3000)]
  sorted := by decide +kernel

def isWhiteSpace (c : Char) : Bool := c ∈ whiteSpace

end Offside.Text
