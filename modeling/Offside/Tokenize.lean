import Offside.Diagnostic
import Offside.Lexeme
import Offside.Source.Cursor
import Offside.Source.Line

/-!
# From a source text to tokens

A scanner reads one piece of the text after the other: blanks, a line break, a comment or a lexeme.
The blanks at the start of a line set its level, four spaces or one tab for each; a line break ends
the statement if the line has a token. Every piece takes at least one character, so the end of the
text is reached.
-/

namespace Offside

set_option autoImplicit false

open Source (Cursor isIndent)

def indentWidth : Nat := 4

/-- `written` says whether the line has a token yet. -/
structure Scanner where
  file : String
  cursor : Cursor
  level : Nat
  written : Bool
deriving Repr

namespace Scanner

def start (file : String) (source : List Char) : Scanner := ⟨file, .ofText source, 0, false⟩

def place (s : Scanner) : Location := ⟨s.file, s.cursor.line, s.cursor.column⟩

/-- Moves on by `n` characters and starts a new lexeme there. -/
def pass (n : Nat) (s : Scanner) : Scanner := { s with cursor := (s.cursor.advanceN n).drop }

/-- Takes the line feed that stands at the cursor. -/
def endLine (s : Scanner) : List Token × Scanner :=
  (if s.written then [.plain .endOfStatement "\n" s.place s.level] else [],
    { s with cursor := s.cursor.skip.newLine, level := 0, written := false })

/-- Passes over the text of a comment; its line feeds end lines like any other. -/
def passText : List Char → Scanner → List Token × Scanner
  | [], s => ([], s)
  | c :: cs, s =>
    let (tokens, s) := if c = '\n' then s.endLine else ([], s.pass 1)
    let (more, s) := passText cs s
    (tokens ++ more, s)

def isBlank (c : Char) : Bool := [' ', '\t', '\r', '\x08', '\x0c'].contains c

/-- What makes a line empty right behind its indentation; a block comment does not. -/
def emptyFrom : List Char → Bool
  | [] => true
  | '\n' :: _ => true
  | '\r' :: '\n' :: _ => true
  | '/' :: '/' :: _ => true
  | _ => false

/-- The level that indentation stands for, if it is nothing but spaces or nothing but tabs. -/
def levelOf (indent : List Char) : Except Fault Nat :=
  let spaces := indent.count ' '
  let tabs := indent.count '\t'
  if spaces > 0 ∧ tabs > 0 then .error .mixedIndentation
  else if spaces % indentWidth ≠ 0 then .error (.badIndentation spaces)
  else if spaces > 0 then .ok (spaces / indentWidth)
  else .ok tabs

/-- Blanks at the start of a line set its level, unless the line turns out to be empty. -/
def blanks (s : Scanner) : Except Fault Scanner := do
  let rest := s.cursor.rest
  let passed := s.pass (rest.takeWhile isBlank).length
  let indent := rest.takeWhile isIndent
  if s.cursor.column = 1 ∧ indent ≠ [] ∧ !emptyFrom (rest.dropWhile isIndent) then
    return { passed with level := ← levelOf indent }
  else
    return passed

def lexeme (l : Lexeme) (s : Scanner) : List Token × Scanner :=
  ([⟨l.kind, String.ofList l.text, s.place, s.level, l.type, l.keyword⟩],
    { s.pass l.size with written := true })

/-- One piece of the text, which begins with `c` and goes on with `cs`. -/
def piece (s : Scanner) (c : Char) (cs : List Char) : Except Fault (List Token × Scanner) :=
  if isBlank c then do return ([], ← s.blanks)
  else if c = '\n' then .ok s.endLine
  else
    match c, cs with
    | '/', '/' :: _ => .ok ([], s.pass ((c :: cs).takeWhile (· ≠ '\n')).length)
    | '/', '*' :: _ =>
      match Lexeme.comment? 0 (c :: cs) with
      | some text => .ok (s.passText text)
      | none => .error .unclosedComment
    | _, _ => do return s.lexeme (← Lexeme.next c cs)

/-- The end of the text ends the last statement, if one is open. -/
def finish (s : Scanner) : List Token :=
  (if s.written then [.plain .endOfStatement "" s.place s.level] else []) ++ [.endAt s.place]

@[simp] theorem rest_pass (n : Nat) (s : Scanner) :
    (s.pass n).cursor.rest = s.cursor.rest.drop n := by simp [pass]

@[simp] theorem rest_endLine (s : Scanner) :
    s.endLine.2.cursor.rest = s.cursor.rest.tail := by simp [endLine, Cursor.skip]

theorem rest_passText (text : List Char) (s : Scanner) :
    (s.passText text).2.cursor.rest = s.cursor.rest.drop text.length := by
  induction text generalizing s with
  | nil => rfl
  | cons c cs ih => by_cases hc : c = '\n' <;> simp [passText, hc, ih]

theorem drop_length_takeWhile (p : Char → Bool) (cs : List Char) :
    cs.drop (cs.takeWhile p).length = cs.dropWhile p := by
  induction cs with
  | nil => rfl
  | cons c cs ih => by_cases hc : p c = true <;> simp [hc, ih]

theorem blanks_rest {s s' : Scanner} (h : s.blanks = .ok s') :
    s'.cursor.rest = s.cursor.rest.dropWhile isBlank := by
  unfold blanks at h
  simp only at h
  split at h
  · cases hl : levelOf (s.cursor.rest.takeWhile isIndent) with
    | error fault => simp [hl, bind, Except.bind] at h
    | ok level =>
      simp only [hl, bind, Except.bind, pure, Except.pure, Except.ok.injEq] at h
      simp [← h, drop_length_takeWhile]
  · cases h
    simp [drop_length_takeWhile]

theorem comment?_ne_nil {depth : Nat} {cs text : List Char}
    (h : Lexeme.comment? depth cs = some text) : text ≠ [] := by
  unfold Lexeme.comment? at h
  split at h
  · cases h
  · split at h
    · cases h; simp
    · obtain ⟨_, _, rfl⟩ := Option.map_eq_some_iff.1 h; simp
  · obtain ⟨_, _, rfl⟩ := Option.map_eq_some_iff.1 h; simp
  · obtain ⟨_, _, rfl⟩ := Option.map_eq_some_iff.1 h; simp

theorem length_drop_lt {n : Nat} {c : Char} {cs : List Char} (h : 0 < n) :
    ((c :: cs).drop n).length < (c :: cs).length := by
  simp only [List.length_drop, List.length_cons]
  omega

/-- Every piece takes at least one character. -/
theorem piece_lt {s s' : Scanner} {c : Char} {cs : List Char} {tokens : List Token}
    (hrest : s.cursor.rest = c :: cs) (h : s.piece c cs = .ok (tokens, s')) :
    s'.cursor.rest.length < s.cursor.rest.length := by
  unfold piece at h
  split at h
  · next hc =>
    cases hb : s.blanks with
    | error fault => simp [hb, bind, Except.bind] at h
    | ok t =>
      simp only [hb, bind, Except.bind, pure, Except.pure, Except.ok.injEq, Prod.mk.injEq] at h
      obtain ⟨_, rfl⟩ := h
      rw [blanks_rest hb, hrest, List.dropWhile_cons_of_pos hc]
      exact Nat.lt_succ_of_le (List.dropWhile_sublist _).length_le
  · split at h
    · simp only [Except.ok.injEq, Prod.ext_iff] at h
      rw [← h.2, rest_endLine, hrest]
      simp
    · split at h
      · simp only [Except.ok.injEq, Prod.mk.injEq] at h
        rw [← h.2, rest_pass, hrest]
        exact length_drop_lt (by simp)
      · split at h
        · next text hcomment =>
          simp only [Except.ok.injEq, Prod.ext_iff] at h
          rw [← h.2, rest_passText, hrest]
          exact length_drop_lt (List.length_pos_iff.2 (comment?_ne_nil hcomment))
        · cases h
      · cases hl : Lexeme.next c cs with
        | error fault => simp [hl, bind, Except.bind] at h
        | ok l =>
          simp only [hl, bind, Except.bind, pure, Except.pure, lexeme, Except.ok.injEq,
            Prod.mk.injEq] at h
          rw [← h.2, rest_pass, hrest]
          exact length_drop_lt l.size_pos

/-- The tokens from here to the end of the text, or the first fault with the place of its piece. -/
def tokens (s : Scanner) : Except Diagnostic (List Token) :=
  match _hrest : s.cursor.rest with
  | [] => .ok s.finish
  | c :: cs =>
    match _h : s.piece c cs with
    | .error fault => .error ⟨fault, s.place⟩
    | .ok (read, s') => (tokens s').map (read ++ ·)
termination_by s.cursor.rest.length
decreasing_by exact piece_lt ‹s.cursor.rest = c :: cs› ‹s.piece c cs = .ok (read, s')›

end Scanner

/-- The file that the tokens of a text without a file name belong to. -/
def namelessFile : String := "shell"

def tokenize (source : String) (file : String) : Except Diagnostic (List Token) :=
  (Scanner.start file source.toList).tokens

end Offside
