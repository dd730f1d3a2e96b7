/-!
# Shortest decimal text of a floating point number

A number is written with the fewest digits that read back as it, of those the nearest to it.
From 10 ^ -4 up to 10 ^ 16 it is written in positions with at least one digit on each side of the
point, otherwise with an exponent.
-/

namespace Offside.Floating

set_option autoImplicit false

open Float.Model (Format UnpackedFloat)
open Float.Model.UnpackedFloat (Sign)

/-- The decimal number m · 10 ^ e. -/
structure Decimal where
  significand : Nat
  exponent : Int
deriving DecidableEq, Repr

/--
The positive number m · 2 ^ q among its neighbours, everything in units of 2 ^ (q - 2): the numbers
that round to it lie from `low` to `high`, the ends included iff m is even. Below the least number
of a binade the gap is half as wide.
-/
structure Interval where
  low : Nat
  middle : Nat
  high : Nat
  closed : Bool
  unit : Int
deriving Repr

def Interval.of (format : Format) (m : Nat) (q : Int) : Interval where
  low := if m = Nat.pow 2 format.mantissaBitsWithoutImplicit ∧ format.minExponent < q
    then 4 * m - 1 else 4 * m - 2
  middle := 4 * m
  high := 4 * m + 2
  closed := m % 2 = 0
  unit := q - 2

/-- The factors that turn a number of units into steps of 10 ^ e: it is n · a / b steps. -/
def Interval.scale (i : Interval) (e : Int) : Nat × Nat :=
  (Nat.pow 2 i.unit.toNat * Nat.pow 10 (-e).toNat,
    Nat.pow 2 (-i.unit).toNat * Nat.pow 10 e.toNat)

/-- Whether `n` steps, each `b` long where a unit is `a` long, lie in the interval. -/
def Interval.holds (i : Interval) (a b n : Nat) : Bool :=
  if i.closed then i.low * a ≤ n * b && n * b ≤ i.high * a
  else i.low * a < n * b && n * b < i.high * a

/-- Of the two multiples of 10 ^ e around the number the nearer one that reads back, if one does. -/
def Interval.onGrid? (i : Interval) (e : Int) : Option Decimal :=
  let (a, b) := i.scale e
  let n := i.middle * a / b
  let far := 2 * (i.middle * a % b)
  let candidates := if far < b then [n, n + 1] else [n + 1, n]
  (candidates.find? (i.holds a b)).map fun n => ⟨n, e⟩

/-- The number of digits in front of the point, negative where zeros follow the point. -/
def Interval.magnitude (i : Interval) : Int :=
  let (a, b) := i.scale (-400)
  (Nat.toDigits 10 (i.middle * a / b)).length - 400

/-- The digit counts are tried in order; seventeen are enough for both formats. -/
def Interval.shortest (i : Interval) : Decimal :=
  let k := i.magnitude
  match (List.range 17).findSome? fun (n : Nat) => i.onGrid? (k - (n + 1 : Nat)) with
  | some d => d
  | none => ⟨0, 0⟩

/-- Digits without zeros at the end, and the place of the point counted from their start. -/
def Decimal.digits (d : Decimal) : List Char × Int :=
  let all := Nat.toDigits 10 d.significand
  ((all.reverse.dropWhile (· = '0')).reverse, all.length + d.exponent)

def positional (digits : List Char) (point : Int) : List Char :=
  if point ≤ 0 then
    ['0', '.'] ++ List.replicate (-point).toNat '0' ++ digits
  else if point < digits.length then
    digits.take point.toNat ++ ['.'] ++ digits.drop point.toNat
  else
    digits ++ List.replicate (point.toNat - digits.length) '0' ++ ['.', '0']

def exponential (digits : List Char) (point : Int) : List Char :=
  let fraction := if digits.length ≤ 1 then [] else '.' :: digits.drop 1
  digits.take 1 ++ fraction ++ ['e'] ++ (toString (point - 1)).toList

def signed (sign : Sign) (text : List Char) : List Char :=
  match sign with
  | .negative => '-' :: text
  | .positive => text

def toText (format : Format) : UnpackedFloat → String
  | .notANumber => "NaN"
  | .infinity sign => String.ofList (signed sign ['i', 'n', 'f'])
  | .zero sign => String.ofList (signed sign ['0', '.', '0'])
  | .finite sign m q _ =>
    let (digits, point) := (Interval.of format m q).shortest.digits
    let text := if -4 < point ∧ point ≤ 16 then positional digits point
      else exponential digits point
    String.ofList (signed sign text)

def text64 (x : Float) : String := toText .binary64 x.toModel.unpack

def text32 (x : Float32) : String := toText .binary32 x.toModel.unpack

end Offside.Floating
