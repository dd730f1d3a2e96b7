import Offside.Fault
import Offside.Text.Alphabetic
import Offside.Text.Escape
import Offside.Token

/-!
# Lexemes

How far the word at the start of a text reaches, and which token it is. Every lexeme is as long as it
can be; only a run of operator characters ends early, in front of a comment.
-/

namespace Offside

set_option autoImplicit false

/-- A token without its place, and the number of characters it takes up in the source. -/
structure Lexeme where
  size : Nat
  kind : Token.Kind
  text : List Char
  type : Option DataType
  keyword : Option Keyword
  size_pos : 0 < size

namespace Lexeme

/-! ## Comments -/

def opensComment : List Char → Bool
  | '/' :: '/' :: _ => true
  | '/' :: '*' :: _ => true
  | _ => false

/--
The text of a block comment up to the end that closes `depth` open ones, if it has that end. Comments
nest.
-/
def comment? : Nat → List Char → Option (List Char)
  | _, [] => none
  | depth, '*' :: '/' :: cs =>
    if depth ≤ 1 then some ['*', '/']
    else (comment? (depth - 1) cs).map ('*' :: '/' :: ·)
  | depth, '/' :: '*' :: cs => (comment? (depth + 1) cs).map ('/' :: '*' :: ·)
  | depth, c :: cs => (comment? depth cs).map (c :: ·)

/-! ## Words, operators and delimiters -/

def startsWord (c : Char) : Bool := c.isAlpha || c = '_'

def continuesWord (c : Char) : Bool := c.isAlphanum || c = '_'

def word (c : Char) (cs : List Char) : Lexeme :=
  let text := c :: cs.takeWhile continuesWord
  let name := String.ofList text
  match Keyword.ofWord? name with
  | some keyword => ⟨text.length, .keyword, text, none, some keyword, by simp [text]⟩
  | none =>
    if (boolean? name).isSome then
      ⟨text.length, .literal, text, some .boolean, none, by simp [text]⟩
    else
      ⟨text.length, .identifier, text, none, none, by simp [text]⟩

def isOperator (c : Char) : Bool :=
  ['+', '-', '*', '/', '!', '%', '&', '|', '=', '<', '>', '^'].contains c

def operatorRun : List Char → List Char
  | [] => []
  | c :: cs => if isOperator c && !opensComment (c :: cs) then c :: operatorRun cs else []

def operator (c : Char) (cs : List Char) : Lexeme :=
  let text := c :: operatorRun cs
  ⟨text.length, .operator, text, none, none, by simp [text]⟩

def isDelimiter (c : Char) : Bool :=
  [',', ':', '[', ']', '\x7b', '\x7d', '(', ')', '.', ';', '@'].contains c

def delimiter (c : Char) : Lexeme := ⟨1, .delimiter, [c], none, none, Nat.one_pos⟩

/-! ## Numbers -/

/-- A point and the digits behind it, which may be none, and the rest. -/
def splitFraction : List Char → List Char × List Char
  | '.' :: cs => ('.' :: cs.takeWhile Char.isDigit, cs.dropWhile Char.isDigit)
  | cs => ([], cs)

def splitSign : List Char → List Char × List Char
  | '+' :: cs => (['+'], cs)
  | '-' :: cs => (['-'], cs)
  | cs => ([], cs)

/-- The letter `e` begins an exponent only if a digit follows, perhaps behind a sign. -/
def splitExponent (cs : List Char) : List Char × List Char :=
  match cs with
  | [] => ([], [])
  | c :: after =>
    let (sign, tail) := splitSign after
    let digits := tail.takeWhile Char.isDigit
    if (c = 'e' ∨ c = 'E') ∧ digits ≠ [] then
      (c :: sign ++ digits, tail.dropWhile Char.isDigit)
    else ([], cs)

def splitSuffix : List Char → List Char × List Char
  | 'f' :: cs => (['f'], cs)
  | 'F' :: cs => (['F'], cs)
  | cs => ([], cs)

/-- No letter may follow a number. -/
def endsNumber : List Char → Bool
  | [] => true
  | c :: _ => !Text.isAlphabetic c

/-- A suffix makes a number a `float`; without it a fraction or an exponent makes it a `double`. -/
def decimal (cs : List Char) : Except Fault Lexeme :=
  let whole := cs.takeWhile Char.isDigit
  let (fraction, afterFraction) := splitFraction (cs.dropWhile Char.isDigit)
  let (exponent, afterExponent) := splitExponent afterFraction
  let (suffix, rest) := splitSuffix afterExponent
  let text := whole ++ fraction ++ exponent ++ suffix
  let type :=
    if suffix ≠ [] then DataType.float
    else if fraction ≠ [] ∨ exponent ≠ [] then DataType.double
    else DataType.int
  if h : whole = [] then .error .expectedDigit
  else if endsNumber rest then
    .ok ⟨text.length, .literal, text, some type, none, by
      have := List.length_pos_iff.2 h
      simp only [text, List.length_append]
      omega⟩
  else .error .badNumber

/-- `x` is the letter behind the leading zero; the token keeps the number in decimal. -/
def hexadecimal (x : Char) (cs : List Char) : Except Fault Lexeme :=
  let digits := cs.takeWhile Numeral.isHexDigit
  let n := Numeral.value 16 digits
  if digits = [] then .error .expectedHexDigit
  else if !endsNumber (cs.dropWhile Numeral.isHexDigit) then .error .badNumber
  else if (n : Int) ≤ Int32.maxValue.toInt then
    .ok ⟨digits.length + 2, .literal, Nat.toDigits 10 n, some .int, none, Nat.succ_pos _⟩
  else .error (.badHexadecimal (String.ofList ('0' :: x :: digits)))

def number : List Char → Except Fault Lexeme
  | '0' :: 'x' :: cs => hexadecimal 'x' cs
  | '0' :: 'X' :: cs => hexadecimal 'X' cs
  | cs => decimal cs

/-! ## Strings and characters -/

/-- The text of a string up to its closing quote, escapes unresolved. -/
def stringBody? : List Char → Option (List Char)
  | [] => none
  | '"' :: _ => some []
  | '\n' :: _ => none
  | '\\' :: '\n' :: _ => none
  | '\\' :: c :: cs => (stringBody? cs).map ('\\' :: c :: ·)
  | c :: cs => (stringBody? cs).map (c :: ·)

def string (cs : List Char) : Except Fault Lexeme :=
  match stringBody? cs with
  | some body => .ok ⟨body.length + 2, .literal, body, some .string, none, Nat.succ_pos _⟩
  | none => .error (.lineEndIn "string")

/--
The source text of one character of a character literal: itself, or an escape. `cs` is not empty and
does not begin with a line feed.
-/
def unit : List Char → Except Fault (List Char)
  | '\\' :: c :: cs =>
    if (Text.Escape.letter? c).isSome then .ok ['\\', c]
    else if c.isDigit then
      let digits := Text.Escape.digits (c :: cs)
      if (Text.Escape.code? digits).isSome then .ok ('\\' :: digits) else .error .badEscape
    else .error .badEscape
  | ['\\'] => .error .badEscape
  | cs => .ok (cs.take 1)

theorem length_unit_pos {c : Char} {cs text : List Char} (h : unit (c :: cs) = .ok text) :
    0 < text.length := by
  unfold unit at h
  split at h
  · split at h
    · cases h; simp
    · split at h
      · dsimp only at h
        split at h
        · cases h; simp
        · cases h
      · cases h
  · cases h
  · cases h; simp

/-- The units of a character literal up to its closing quote. -/
def units (cs : List Char) : Except Fault (List (List Char)) :=
  match cs with
  | [] => .error (.lineEndIn "char")
  | c :: rest =>
    if c = '\n' then .error (.lineEndIn "char")
    else if c = '\'' then .ok []
    else
      match _h : unit (c :: rest) with
      | .error fault => .error fault
      | .ok text => (units ((c :: rest).drop text.length)).map (text :: ·)
termination_by cs.length
decreasing_by
  have := length_unit_pos ‹unit (c :: rest) = .ok text›
  simp only [List.length_drop, List.length_cons]
  omega

def character (cs : List Char) : Except Fault Lexeme := do
  match ← units cs with
  | [text] => return ⟨text.length + 2, .literal, text, some .char, none, Nat.succ_pos _⟩
  | _ => throw .badCharacterLength

/-- The lexeme that begins with `c`, which is neither blank nor the start of a comment. -/
def next (c : Char) (cs : List Char) : Except Fault Lexeme :=
  if c.isDigit then number (c :: cs)
  else if startsWord c then .ok (word c cs)
  else if isOperator c then .ok (operator c cs)
  else if isDelimiter c then .ok (delimiter c)
  else if c = '"' then string cs
  else if c = '\'' then character cs
  else .error (.unexpectedCharacter c)

end Lexeme

end Offside
