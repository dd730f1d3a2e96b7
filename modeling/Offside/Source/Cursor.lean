/-!
# A cursor in a source text

The text is cut in three: what is done with, the lexeme being gathered, and what is still to come. The
end of the text reads as a NUL character, which is not part of the text: the cursor never moves onto
it, and a NUL character of the text itself is an ordinary one.

The line and the column are counted without a bound. Counters of 32 bits would run over behind 2 ^ 32 - 1
lines, or as many columns of one line.
-/

namespace Offside.Source

set_option autoImplicit false

/-- The first two parts are kept last character first. -/
structure Cursor where
  done : List Char
  taken : List Char
  rest : List Char
  line : Nat
  column : Nat
deriving DecidableEq, Repr

namespace Cursor

def sentinel : Char := '\x00'

def ofText (text : List Char) : Cursor := ⟨[], [], text, 1, 1⟩

def lexeme (c : Cursor) : List Char := c.taken.reverse

/-- What is still to come, closed by the sentinel. -/
def remainder (c : Cursor) : List Char := c.rest ++ [sentinel]

def atEnd (c : Cursor) : Bool := c.rest.isEmpty

def peek (c : Cursor) : Char := c.rest.headD sentinel

/-- Takes one character into the lexeme; stays at the end. -/
def advance (c : Cursor) : Cursor :=
  match c.rest with
  | [] => c
  | x :: rest => { c with taken := x :: c.taken, rest, column := c.column + 1 }

def advanceN : Nat → Cursor → Cursor
  | 0, c => c
  | n + 1, c => advanceN n c.advance

/-- Steps back over one character, out of the lexeme or, if that is empty, in front of it. -/
def backUp (c : Cursor) : Cursor :=
  match c.taken, c.done with
  | x :: taken, _ => { c with taken, rest := x :: c.rest, column := c.column - 1 }
  | [], x :: done => { c with done, rest := x :: c.rest, column := c.column - 1 }
  | [], [] => c

/-- Forgets the lexeme: the next one starts here. -/
def drop (c : Cursor) : Cursor := { c with done := c.taken ++ c.done, taken := [] }

def skip (c : Cursor) : Cursor := c.advance.drop

def newLine (c : Cursor) : Cursor := { c with line := c.line + 1, column := 1 }

def holds (p : Char → Bool) (c : Cursor) : Bool :=
  match c.rest with
  | [] => false
  | x :: _ => p x

/-- Takes one character if `p` holds of it, and says whether it did. -/
def acceptIf (p : Char → Bool) (c : Cursor) : Bool × Cursor :=
  if c.holds p then (true, c.advance) else (false, c)

def check (x : Char) (c : Cursor) : Bool := c.holds (· = x)

def checkDigit (c : Cursor) : Bool := c.holds Char.isDigit

def accept (x : Char) (c : Cursor) : Bool × Cursor := c.acceptIf (· = x)

def acceptAny (xs : List Char) (c : Cursor) : Bool × Cursor := c.acceptIf (xs.contains ·)

def acceptNone (xs : List Char) (c : Cursor) : Bool × Cursor := c.acceptIf (!xs.contains ·)

/-- Whether the text goes on with `xs`; the sentinel counts as the character after the last. -/
def startsWith (xs : List Char) (c : Cursor) : Bool := xs.isPrefixOf c.remainder

@[simp] theorem rest_advance (c : Cursor) : c.advance.rest = c.rest.tail := by
  unfold advance
  split <;> simp_all

@[simp] theorem rest_advanceN (n : Nat) (c : Cursor) : (c.advanceN n).rest = c.rest.drop n := by
  induction n generalizing c with
  | zero => rfl
  | succ n ih => simp [advanceN, ih]

@[simp] theorem line_advance (c : Cursor) : c.advance.line = c.line := by
  unfold advance
  split <;> rfl

@[simp] theorem line_advanceN (n : Nat) (c : Cursor) : (c.advanceN n).line = c.line := by
  induction n generalizing c with
  | zero => rfl
  | succ n ih => simp [advanceN, ih]

@[simp] theorem rest_drop (c : Cursor) : c.drop.rest = c.rest := rfl

@[simp] theorem rest_newLine (c : Cursor) : c.newLine.rest = c.rest := rfl

/-- No operation changes the text that the cursor stands in. -/
def text (c : Cursor) : List Char := c.done.reverse ++ c.lexeme ++ c.rest

@[simp] theorem text_advance (c : Cursor) : c.advance.text = c.text := by
  unfold advance
  split <;> simp_all [text, lexeme]

@[simp] theorem text_backUp (c : Cursor) : c.backUp.text = c.text := by
  unfold backUp
  split <;> simp_all [text, lexeme]

@[simp] theorem text_drop (c : Cursor) : c.drop.text = c.text := by
  simp [text, drop, lexeme]

theorem backUp_advance {c : Cursor} (h : c.rest ≠ []) : c.advance.backUp = c := by
  obtain ⟨done, taken, rest, line, column⟩ := c
  cases rest with
  | nil => exact absurd rfl h
  | cons x rest => simp [advance, backUp]

end Cursor

end Offside.Source
