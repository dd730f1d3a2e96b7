/-!
# Remainder of floating point numbers

`x` less the multiple of `y` that truncated division takes away. The result has the sign of `x`, is
smaller than `y`, and is always a number of the format: no rounding takes place.
-/

namespace Offside.Floating

set_option autoImplicit false

open Float.Model (Format UnpackedFloat)

/-- Both operands are brought to the lower of their exponents and divided as whole numbers. -/
def remainder (format : Format) : UnpackedFloat → UnpackedFloat → UnpackedFloat
  | .finite sign m e _, .finite _ n f _ =>
    let low := min e f
    let r := (m <<< (e - low).toNat) % (n <<< (f - low).toNat)
    if r = 0 then .zero sign else .round format sign r low
  | .zero sign, .finite .. => .zero sign
  | .finite sign m e h, .infinity _ => .finite sign m e h
  | .zero sign, .infinity _ => .zero sign
  | _, _ => .notANumber

def remainder64 (x y : Float) : Float :=
  .ofModel (.pack (remainder .binary64 x.toModel.unpack y.toModel.unpack))

def remainder32 (x y : Float32) : Float32 :=
  .ofModel (.pack (remainder .binary32 x.toModel.unpack y.toModel.unpack))

end Offside.Floating
