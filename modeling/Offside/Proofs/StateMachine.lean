import Offside.Proofs.CursorLoops

/-!
# The scanner as a machine

A machine of twelve states that moves a cursor through a text. Between two pieces it is in its first state, which
looks at the next character and goes to the state for the piece that begins there; that one takes the piece, with a
loop of its own where it needs one, and goes back to the first. Behind the text the cursor sees a sentinel.
-/

namespace Offside

set_option autoImplicit false

open Source (Cursor)

/-! ## The machine -/

/-- What the machine does next. -/
inductive Machine.State where
  | start
  | blanks
  | lineFeed
  | lineComment
  | blockComment
  | number
  | word
  | operator
  | delimiter
  | string
  | character
  | endOfText
deriving DecidableEq, Repr

/-- A scanner with the place where the token begins that it is about to take, and with the tokens that it has taken. -/
structure Machine extends Scanner where
  origin : Location
  read : List Token
deriving Repr

namespace Machine

/-- The next state, if there is one. -/
abbrev Outcome := Except Diagnostic (Option State × Machine)

def ofText (file : String) (source : List Char) : Machine :=
  { Scanner.start file source with origin := ⟨file, 1, 1⟩, read := [] }

/-- A token begins here. -/
def mark (m : Machine) : Machine := { m with origin := m.place }

def fail {α : Type} (fault : Fault) (m : Machine) : Except Diagnostic α := .error ⟨fault, m.origin⟩

/-- The next lexeme begins behind the token. -/
def add (t : Token) (m : Machine) : Machine :=
  { m with read := m.read ++ [t], cursor := m.cursor.drop, written := true }

def addPlain (kind : Token.Kind) (m : Machine) : Machine :=
  m.add (.plain kind (String.ofList m.cursor.lexeme) m.origin m.level)

def addLiteral (type : DataType) (m : Machine) : Machine :=
  m.add ⟨.literal, String.ofList m.cursor.lexeme, m.origin, m.level, some type, none⟩

/-! ### The first state -/

/-- The state for what begins at the cursor; none if nothing does. -/
def choice? (c : Cursor) : Option State :=
  if c.atEnd then some .endOfText
  else if Scanner.isBlank c.peek then some .blanks
  else if c.peek = '\n' then some .lineFeed
  else if c.startsWith ['/', '/'] then some .lineComment
  else if c.startsWith ['/', '*'] then some .blockComment
  else if c.peek.isDigit then some .number
  else if Lexeme.startsWord c.peek then some .word
  else if Lexeme.isOperator c.peek then some .operator
  else if Lexeme.isDelimiter c.peek then some .delimiter
  else if c.peek = '"' then some .string
  else if c.peek = '\'' then some .character
  else none

def onStart (m : Machine) : Outcome :=
  match choice? m.cursor with
  | some q => .ok (some q, m.mark)
  | none => m.mark.fail (.unexpectedCharacter m.cursor.peek)

/-! ### Blanks and line ends -/

/-- Sets the level of the line by its indentation, unless nothing else is on the line. -/
def indent (m : Machine) : Except Diagnostic Machine :=
  let (spaces, tabs, c) := m.cursor.acceptIndent 0 0
  let m := { m with cursor := c }
  if c.check '\n' || c.startsWith ['\r', '\n'] || c.atEnd || c.startsWith ['/', '/'] then .ok m
  else if spaces > 0 ∧ tabs > 0 then m.fail .mixedIndentation
  else if spaces > 0 then
    if spaces % indentWidth ≠ 0 then m.fail (.badIndentation spaces)
    else .ok { m with level := spaces / indentWidth }
  else if tabs > 0 then .ok { m with level := tabs }
  else .ok m

def onBlanks (m : Machine) : Outcome := do
  let m ← if m.cursor.column = 1 then m.indent else .ok m
  return (some .start, { m with cursor := (m.cursor.acceptWhile Scanner.isBlank).drop })

/-- Ends the line at a line feed; anything else is left alone. -/
def feedLine (m : Machine) : Machine :=
  let m := m.mark
  match m.cursor.accept '\n' with
  | (true, c) =>
    let m := { m with cursor := c }
    let m := if m.written then m.addPlain .endOfStatement else { m with cursor := m.cursor.drop }
    { m with written := false, cursor := m.cursor.newLine, level := 0 }
  | (false, _) => m

def onLineFeed (m : Machine) : Outcome := .ok (some .start, m.feedLine)

/-! ### Comments -/

def onLineComment (m : Machine) : Outcome :=
  .ok (some .start, { m with cursor := (m.cursor.acceptWhile (· ≠ '\n')).drop })

theorem rest_feedLine {m : Machine} (h : m.cursor.check '\n') : m.feedLine.cursor.rest = m.cursor.rest.tail := by
  have haccept : m.mark.cursor.accept '\n' = (true, m.cursor.advance) := if_pos h
  unfold feedLine
  dsimp only
  rw [haccept]
  dsimp only
  split <;> simp [addPlain, add, mark]

/-- Nothing that opens or closes a comment or ends a line. -/
def isCommentText (x : Char) : Bool := !(['/', '*', '\n'].contains x)

/-- A block comment in which `depth` comments are open; `origin` is where it begins. -/
def closeComment (origin : Location) (depth : Int) (m : Machine) : Outcome :=
  let c := m.cursor.acceptWhile isCommentText
  if _hend : c.atEnd then .error ⟨.unclosedComment, origin⟩
  else if _hline : c.check '\n' then closeComment origin depth { m with cursor := c.drop }.feedLine
  else if c.startsWith ['*', '/'] then
    if depth - 1 = 0 then .ok (some .start, { m with cursor := (c.advanceN 2).drop })
    else closeComment origin (depth - 1) { m with cursor := c.advanceN 2 }
  else if c.startsWith ['/', '*'] then closeComment origin (depth + 1) { m with cursor := c.advanceN 2 }
  else closeComment origin depth { m with cursor := c.advance }
termination_by m.cursor.rest.length
decreasing_by
  all_goals
    have hfirst : c.rest.length ≤ m.cursor.rest.length := Cursor.length_rest_acceptWhile _ m.cursor
    have hadvance := fun n => (Cursor.length_rest_advanceN n (Bool.eq_false_iff.mpr _hend)).trans_le hfirst
  · rw [rest_feedLine (m := { m with cursor := c.drop }) _hline, Cursor.rest_drop, ← Cursor.rest_advance]
    exact hadvance 0
  · exact hadvance 1
  · exact hadvance 1
  · exact hadvance 0

def onBlockComment (m : Machine) : Outcome := m.closeComment m.origin 0

/-! ### Numbers -/

/-- The letter and the digits that a hexadecimal number begins with. -/
def hexadecimalParts? : List Char → Option (Char × List Char)
  | '0' :: 'x' :: cs => some ('x', cs.takeWhile Numeral.isHexDigit)
  | '0' :: 'X' :: cs => some ('X', cs.takeWhile Numeral.isHexDigit)
  | _ => none

/-- The whole digits, the fraction, the exponent and the suffix that a number begins with. -/
def decimalParts? (cs : List Char) : Option (List Char × List Char × List Char × List Char) :=
  let (fraction, afterFraction) := Lexeme.splitFraction (cs.dropWhile Char.isDigit)
  let (exponent, afterExponent) := Lexeme.splitExponent afterFraction
  if cs.takeWhile Char.isDigit = [] then none
  else some (cs.takeWhile Char.isDigit, fraction, exponent, (Lexeme.splitSuffix afterExponent).1)

/-- A number of `length` characters, behind which no letter may stand. -/
def passNumber (length : Nat) (m : Machine) : Except Diagnostic Machine :=
  let m := { m with cursor := m.cursor.advanceN length }
  if Text.isAlphabetic m.cursor.peek then m.fail .badNumber else .ok m

def onNumber (m : Machine) : Outcome :=
  match hexadecimalParts? m.cursor.remainder with
  | some (_, digits) => do
    if digits = [] then m.fail .expectedHexDigit
    else
      let m ← m.passNumber (digits.length + 2)
      if (Numeral.value 16 digits : Int) ≤ Int32.maxValue.toInt then
        return (some .start, m.add ⟨.literal, String.ofList (Nat.toDigits 10 (Numeral.value 16 digits)), m.origin,
          m.level, some .int, none⟩)
      else m.fail (.badHexadecimal (String.ofList m.cursor.lexeme))
  | none =>
    match decimalParts? m.cursor.remainder with
    | none => m.fail .expectedDigit
    | some (whole, fraction, exponent, suffix) => do
      let type :=
        if suffix ≠ [] then DataType.float
        else if fraction ≠ [] ∨ exponent ≠ [] then DataType.double
        else DataType.int
      let m ← m.passNumber (whole ++ fraction ++ exponent ++ suffix).length
      return (some .start, m.addLiteral type)

/-! ### Words, operators and delimiters -/

def onWord (m : Machine) : Outcome :=
  let m := { m with cursor := m.cursor.acceptWhile Lexeme.continuesWord }
  let name := String.ofList m.cursor.lexeme
  match Keyword.ofWord? name with
  | some keyword => .ok (some .start, m.add ⟨.keyword, name, m.origin, m.level, none, some keyword⟩)
  | none =>
    if (boolean? name).isSome then .ok (some .start, m.addLiteral .boolean)
    else .ok (some .start, m.addPlain .identifier)

def onOperator (m : Machine) : Outcome :=
  .ok (some .start, { m with cursor := m.cursor.acceptOperators }.addPlain .operator)

def onDelimiter (m : Machine) : Outcome :=
  .ok (some .start, { m with cursor := m.cursor.advance }.addPlain .delimiter)

/-! ### Literals in quotes -/

/-- The literal reaches from behind its first quote to the cursor, where its last one stands. -/
def closeLiteral (type : DataType) (m : Machine) : Machine :=
  let m := m.addLiteral type
  { m with cursor := m.cursor.skip }

def onString (m : Machine) : Outcome :=
  match m.cursor.skip.stringEnd? with
  | none => m.fail (.lineEndIn "string")
  | some c => .ok (some .start, { m with cursor := c }.closeLiteral .string)

def onCharacter (m : Machine) : Outcome :=
  match m.cursor.skip.characterEnd 0 with
  | .error fault => m.fail fault
  | .ok (count, c) =>
    if count ≠ 1 then m.fail .badCharacterLength
    else .ok (some .start, { m with cursor := c }.closeLiteral .char)

/-! ### The end of the text -/

def onEndOfText (m : Machine) : Outcome :=
  let m := if m.written then m.addPlain .endOfStatement else m
  let m := { m with level := 0 }
  .ok (none, m.addPlain .endOfFile)

def step : State → Machine → Outcome
  | .start => onStart
  | .blanks => onBlanks
  | .lineFeed => onLineFeed
  | .lineComment => onLineComment
  | .blockComment => onBlockComment
  | .number => onNumber
  | .word => onWord
  | .operator => onOperator
  | .delimiter => onDelimiter
  | .string => onString
  | .character => onCharacter
  | .endOfText => onEndOfText

end Machine

end Offside
