/-!
# Numerals

What a run of digits is worth, and the texts that stand for 32-bit integers and for binary floating
point numbers. A floating point numeral is rounded once, straight from its decimal value to the
nearest number of the format, a half to the even neighbour.
-/

namespace Offside.Numeral

set_option autoImplicit false

def digitValue (c : Char) : Nat :=
  if c.isDigit then c.toNat - '0'.toNat
  else if c.isLower then c.toNat - 'a'.toNat + 10
  else c.toNat - 'A'.toNat + 10

def isHexDigit (c : Char) : Bool :=
  c.isDigit || ('a' ≤ c && c ≤ 'f') || ('A' ≤ c && c ≤ 'F')

/-- The number that `digits` write in the given base, most significant digit first. -/
def value (base : Nat) (digits : List Char) : Nat :=
  digits.foldl (fun n c => n * base + digitValue c) 0

inductive Sign where
  | plus | minus
deriving DecidableEq, Repr

/-- An optional sign in front. -/
def splitSign : List Char → Sign × List Char
  | '+' :: rest => (.plus, rest)
  | '-' :: rest => (.minus, rest)
  | cs => (.plus, cs)

def Sign.apply : Sign → Nat → Int
  | .plus, n => n
  | .minus, n => -n

/-- One digit or more, and nothing else. -/
def natural? (cs : List Char) : Option Nat :=
  if cs ≠ [] ∧ cs.all Char.isDigit then some (value 10 cs) else none

def integer? (cs : List Char) : Option Int :=
  let (sign, digits) := splitSign cs
  (natural? digits).map sign.apply

/-- A text outside the range of 32 bits stands for no integer. -/
def int32? (text : String) : Option Int32 :=
  match integer? text.toList with
  | some n =>
    if Int32.minValue.toInt ≤ n ∧ n ≤ Int32.maxValue.toInt then some (Int32.ofInt n) else none
  | none => none

/-! ## Floating point numerals -/

/-- What a numeral without its sign stands for; `decimal m e` is m · 10 ^ e. -/
inductive Magnitude where
  | notANumber
  | infinite
  | decimal (significand : Nat) (exponent : Int)
deriving DecidableEq, Repr

/-- Nothing, or the letter `e` and a whole number. -/
def exponent? : List Char → Option Int
  | [] => some 0
  | 'e' :: rest | 'E' :: rest => integer? rest
  | _ => none

/-- Digits with an optional fraction; the point stands alone on neither side of both. -/
def decimal? (cs : List Char) : Option Magnitude :=
  let whole := cs.takeWhile Char.isDigit
  let rest := cs.dropWhile Char.isDigit
  let (fraction, tail) :=
    match rest with
    | '.' :: r => (r.takeWhile Char.isDigit, r.dropWhile Char.isDigit)
    | _ => ([], rest)
  if whole = [] ∧ fraction = [] then none
  else (exponent? tail).map fun e => .decimal (value 10 (whole ++ fraction)) (e - fraction.length)

def magnitude? (cs : List Char) : Option Magnitude :=
  let word := cs.map Char.toLower
  if word = "nan".toList then some .notANumber
  else if word = "inf".toList ∨ word = "infinity".toList then some .infinite
  else decimal? cs

def float? (text : String) : Option Float :=
  let (sign, cs) := splitSign text.toList
  (magnitude? cs).map fun m =>
    let x : Float :=
      match m with
      | .notANumber => 0 / 0
      | .infinite => 1 / 0
      | .decimal m e => Float.ofScientific m (e < 0) e.natAbs
    if sign = .minus then -x else x

def float32? (text : String) : Option Float32 :=
  let (sign, cs) := splitSign text.toList
  (magnitude? cs).map fun m =>
    let x : Float32 :=
      match m with
      | .notANumber => 0 / 0
      | .infinite => 1 / 0
      | .decimal m e => Float32.ofScientific m (e < 0) e.natAbs
    if sign = .minus then -x else x

end Offside.Numeral
