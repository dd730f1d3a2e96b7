import Offside.Text.CharSet
import Offside.Text.GraphemeExtend
import Offside.Text.Printable

/-!
# Quoted text

How a message shows a character or a text without ambiguity: between quotes, with a short escape for
the common controls, and with the code point of everything that would not show as itself.
-/

namespace Offside.Text

set_option autoImplicit false

def hexadecimal (n : Nat) : List Char := Nat.toDigits 16 n

def codePoint (c : Char) : List Char := ['\\', 'u', '\x7b'] ++ hexadecimal c.toNat ++ ['\x7d']

/-- The halfwidth voicing marks, which extend a grapheme and yet take up a place of their own. -/
def spacingMarks : CharSet := ⟨[(0xFF9E, 0xFF9F)], by decide⟩

/-- The letters without a shape, which stand for a missing one in a Hangul syllable. -/
def fillers : CharSet := ⟨[(0x115F, 0x1160), (0x3164, 0x3164), (0xFFA0, 0xFFA0)], by decide⟩

/-- A character that a reader can see and tell from the one before it. -/
def showsAsItself (c : Char) : Bool :=
  isPrintable c ∧ c ∉ fillers ∧ (isGraphemeExtending c → c ∈ spacingMarks)

/-- One character of a text between `quote`s. Of the two quotes only the enclosing one is escaped. -/
def escaped (quote c : Char) : List Char :=
  if c = '\x00' then ['\\', '0']
  else if c = '\t' then ['\\', 't']
  else if c = '\r' then ['\\', 'r']
  else if c = '\n' then ['\\', 'n']
  else if c = '\\' ∨ c = quote then ['\\', c]
  else if showsAsItself c then [c]
  else codePoint c

def enclosed (quote : Char) (cs : List Char) : String :=
  String.ofList (quote :: cs.flatMap (escaped quote) ++ [quote])

def quotedChar (c : Char) : String := enclosed '\'' [c]

def quoted (s : String) : String := enclosed '"' s.toList

end Offside.Text
