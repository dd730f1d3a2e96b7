/-!
# Laying out a dump

A dump on one line is broken behind every opening bracket and every comma and in front of every closing
bracket, and each line is indented by the brackets that are open. Between double quotes nothing is
changed; other quotes have no meaning here.
-/

namespace Offside.Layout

set_option autoImplicit false

/-- `written` has the last character first. -/
structure State where
  written : List Char
  depth : Nat
  skipsSpace : Bool
  inString : Bool
  escaped : Bool
deriving DecidableEq, Repr

def start : State := ⟨[], 0, false, false, false⟩

/-- A line break and the indentation of the line after it. -/
def lineBreak (depth : Nat) (written : List Char) : List Char :=
  List.replicate (2 * depth) ' ' ++ '\n' :: written

def isOpening (c : Char) : Bool := ['\x7b', '(', '['].contains c

def isClosing (c : Char) : Bool := ['\x7d', ')', ']'].contains c

/-- Inside a string; the character behind a backslash does not end it. -/
def stepString (s : State) (c : Char) : State :=
  { s with
    written := c :: s.written
    escaped := !s.escaped && c = '\\'
    inString := s.escaped || c ≠ '"' }

/-- Outside of strings. A space behind a line break is dropped. -/
def stepPlain (s : State) (c : Char) : State :=
  if c = '"' then { s with written := c :: s.written, inString := true }
  else if isOpening c then
    { s with
      written := lineBreak (s.depth + 1) (c :: s.written), depth := s.depth + 1, skipsSpace := true }
  else if isClosing c then
    { s with written := c :: lineBreak (s.depth - 1) s.written, depth := s.depth - 1 }
  else if c = ',' then
    { s with written := lineBreak s.depth (c :: s.written), skipsSpace := true }
  else if c = ' ' ∧ s.skipsSpace then { s with skipsSpace := false }
  else { s with written := c :: s.written, skipsSpace := false }

def step (s : State) (c : Char) : State := if s.inString then stepString s c else stepPlain s c

def run (text : List Char) : State := text.foldl step start

def indented (text : String) : String := String.ofList (run text.toList).written.reverse

end Offside.Layout
