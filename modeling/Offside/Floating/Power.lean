/-!
# Powers of integers

The power of two integers is that of floating point numbers, cut off at the point. What fits into 32 bits
is exact in floating point; what does not comes to the bound that it lies beyond, and a power with a
negative exponent to less than one unless the base is a unit or zero.
-/

namespace Offside.Floating

set_option autoImplicit false

/-- The integer of 32 bits that is closest to `n`. -/
def saturate (n : Int) : Int32 :=
  if n < Int32.minValue.toInt then .minValue
  else if Int32.maxValue.toInt < n then .maxValue
  else .ofInt n

/--
An exponent that does as well: from 32 on it is known whether the power is beyond a bound, and the sign
is that of an even or an odd exponent.
-/
def shorten (n : Nat) : Nat := if n < 32 then n else 32 + n % 2

/-- The inverse of zero is infinite. -/
def power (l r : Int32) : Int32 :=
  if 0 ≤ r.toInt then saturate (l.toInt.pow (shorten r.toInt.toNat))
  else if l = 0 then .maxValue
  else .ofInt (Int.tdiv 1 (l.toInt.pow (shorten r.toInt.natAbs)))

end Offside.Floating
