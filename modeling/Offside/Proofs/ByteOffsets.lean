import Offside.Source.Cursor

/-!
# A cursor of byte offsets

The cuts that a cursor makes in the text can be kept as offsets instead, counted in bytes, into the text with the
sentinel appended. Then a cut can miss the characters, the lexeme can begin behind its end, and the column in front
of a line's first one cannot be told: moves over such a text may fail. They fail only where they step back from
column 0, and up to there they agree with those of the cursor.
-/

namespace Offside.Source

set_option autoImplicit false

/-! ## Bytes of a text -/

/-- How many bytes the characters take. -/
def byteCount (cs : List Char) : Nat := (String.ofList cs).utf8ByteSize

@[simp] theorem byteCount_nil : byteCount [] = 0 := rfl

@[simp] theorem byteCount_cons (x : Char) (cs : List Char) : byteCount (x :: cs) = x.utf8Size + byteCount cs := by
  simp [byteCount, String.ofList_cons]

@[simp] theorem byteCount_append (cs ds : List Char) : byteCount (cs ++ ds) = byteCount cs + byteCount ds := by
  simp [byteCount, String.ofList_append]

@[simp] theorem byteCount_reverse (cs : List Char) : byteCount cs.reverse = byteCount cs := by
  induction cs with
  | nil => rfl
  | cons x cs ih => simp [ih, Nat.add_comm]

theorem byteCount_eq_zero {cs : List Char} : byteCount cs = 0 ↔ cs = [] := by
  cases cs with
  | nil => simp
  | cons x cs =>
    have := x.utf8Size_pos
    simp
    omega

/-- The text in front of an offset and the text behind it, if the offset is one between two characters. -/
def splitAt? : List Char → Nat → Option (List Char × List Char)
  | cs, 0 => some ([], cs)
  | [], _ + 1 => none
  | x :: cs, n + 1 =>
    if x.utf8Size ≤ n + 1 then
      (splitAt? cs (n + 1 - x.utf8Size)).map fun (before, behind) => (x :: before, behind)
    else none

theorem splitAt?_append (before behind : List Char) :
    splitAt? (before ++ behind) (byteCount before) = some (before, behind) := by
  induction before with
  | nil => simp [splitAt?]
  | cons x before ih =>
    obtain ⟨n, hn⟩ : ∃ n, byteCount (x :: before) = n + 1 := by
      refine Nat.exists_eq_add_one.mpr ?_
      have := x.utf8Size_pos
      simp
      omega
    have hsize := byteCount_cons x before
    rw [hn] at hsize ⊢
    rw [List.cons_append, splitAt?, if_pos (by omega), hsize, Nat.add_sub_cancel_left, ih]
    rfl

/-! ## The cursor -/

/-- Offsets of the lexeme and of what is still to come. -/
structure ByteCursor where
  source : List Char
  start : Nat
  position : Nat
  line : Nat
  column : Nat
deriving DecidableEq, Repr

namespace ByteCursor

open Cursor (sentinel)

def ofText (text : List Char) : ByteCursor := ⟨text ++ [sentinel], 0, 0, 1, 1⟩

def atEnd (b : ByteCursor) : Bool := b.position + sentinel.utf8Size ≥ byteCount b.source

def remainder? (b : ByteCursor) : Option (List Char) := do
  let (_, behind) ← splitAt? b.source b.position
  return behind

def lexeme? (b : ByteCursor) : Option (List Char) := do
  let (before, _) ← splitAt? b.source b.position
  let (_, lexeme) ← splitAt? before b.start
  return lexeme

def peek? (b : ByteCursor) : Option Char := do return (← b.remainder?).headD sentinel

/-- The current character, which is taken into the lexeme if it is not the sentinel. -/
def next? (b : ByteCursor) : Option (Char × ByteCursor) := do
  let x ← b.peek?
  if b.atEnd then return (x, b)
  return (x, { b with position := b.position + x.utf8Size, column := b.column + 1 })

/-- Drags the start of the lexeme along where it would come to lie behind the position. -/
def backUp? (b : ByteCursor) : Option ByteCursor := do
  let (before, _) ← splitAt? b.source b.position
  match before.getLast? with
  | none => return b
  | some x =>
    let position := b.position - x.utf8Size
    if b.column = 0 then none
    return { b with
      position
      column := b.column - 1
      start := if b.start > position then position else b.start }

/-- Takes the current character and, if `p` does not hold of it, steps back over it. -/
def acceptIf? (p : Char → Bool) (b : ByteCursor) : Option (Bool × ByteCursor) := do
  if b.atEnd then return (false, b)
  let (x, b₁) ← b.next?
  if p x then return (true, b₁)
  return (false, ← b₁.backUp?)

def advanceN? : Nat → ByteCursor → Option ByteCursor
  | 0, b => return b
  | n + 1, b => do
    let (_, b₁) ← b.next?
    b₁.advanceN? n

def drop (b : ByteCursor) : ByteCursor := { b with start := b.position }

def skip? (b : ByteCursor) : Option ByteCursor := do
  let (_, b₁) ← b.next?
  return b₁.drop

def newLine (b : ByteCursor) : ByteCursor := { b with line := b.line + 1, column := 1 }

end ByteCursor

/-! ## Moves -/

inductive Move where
  | next
  | backUp
  | accept (x : Char)
  | acceptIf (p : Char → Bool)
  | acceptNone (xs : List Char)
  | advanceN (n : Nat)
  | drop
  | skip
  | newLine

/-- What a move tells of the text. -/
inductive Reply where
  | done
  | read (x : Char)
  | accepted (yes : Bool)
deriving DecidableEq, Repr

/-- The condition on the character that is to be accepted. -/
def Move.predicate? : Move → Option (Char → Bool)
  | .accept x => some (· = x)
  | .acceptIf p => some p
  | .acceptNone xs => some (!xs.contains ·)
  | _ => none

def Cursor.move (c : Cursor) : Move → Reply × Cursor
  | .next => (.read c.peek, c.advance)
  | .backUp => (.done, c.backUp)
  | .accept x => (c.accept x).map .accepted id
  | .acceptIf p => (c.acceptIf p).map .accepted id
  | .acceptNone xs => (c.acceptNone xs).map .accepted id
  | .advanceN n => (.done, c.advanceN n)
  | .drop => (.done, c.drop)
  | .skip => (.done, c.skip)
  | .newLine => (.done, c.newLine)

def Cursor.run (c : Cursor) : List Move → List Reply × Cursor
  | [] => ([], c)
  | m :: moves =>
    let (reply, c₁) := c.move m
    (c₁.run moves).map (reply :: ·) id

def ByteCursor.move? (b : ByteCursor) : Move → Option (Reply × ByteCursor)
  | .next => b.next?.map (·.map .read id)
  | .backUp => b.backUp?.map (.done, ·)
  | .accept x => (b.acceptIf? (· = x)).map (·.map .accepted id)
  | .acceptIf p => (b.acceptIf? p).map (·.map .accepted id)
  | .acceptNone xs => (b.acceptIf? (!xs.contains ·)).map (·.map .accepted id)
  | .advanceN n => (b.advanceN? n).map (.done, ·)
  | .drop => some (.done, b.drop)
  | .skip => b.skip?.map (.done, ·)
  | .newLine => some (.done, b.newLine)

def ByteCursor.run? (b : ByteCursor) : List Move → Option (List Reply × ByteCursor)
  | [] => some ([], b)
  | m :: moves => do
    let (reply, b₁) ← b.move? m
    let (replies, b₂) ← b₁.run? moves
    return (reply :: replies, b₂)

/-- Some move steps back from column 0. -/
def ByteCursor.LeavesLine (b : ByteCursor) (moves : List Move) : Prop :=
  ∃ before after replies b', moves = before ++ .backUp :: after ∧ b.run? before = some (replies, b') ∧
    0 < b'.position ∧ b'.column = 0

/-- The offsets stand in order, none of them behind the sentinel, and cut the text with the sentinel between its
characters. -/
structure ByteCursor.Sits (text : List Char) (b : ByteCursor) : Prop where
  source : b.source = text ++ [Cursor.sentinel]
  start : b.start ≤ b.position
  position : b.position ≤ byteCount text
  pieces : ∃ lexeme remainder, b.lexeme? = some lexeme ∧ b.remainder? = some remainder ∧
    lexeme ++ remainder <:+ text ++ [Cursor.sentinel]

/-! ## The offsets of a cursor -/

namespace Cursor

variable (c : Cursor)

def inBytes : ByteCursor :=
  ⟨c.text ++ [sentinel], byteCount c.done, byteCount c.done + byteCount c.taken, c.line, c.column⟩

theorem inBytes_ofText (text : List Char) : (ofText text).inBytes = .ofText text := by
  simp [ofText, inBytes, ByteCursor.ofText, Cursor.text, lexeme]

theorem splitAt?_position :
    splitAt? c.inBytes.source c.inBytes.position = some (c.done.reverse ++ c.lexeme, c.remainder) := by
  have hsource : c.inBytes.source = (c.done.reverse ++ c.lexeme) ++ c.remainder := by
    simp [inBytes, Cursor.text, remainder]
  have hposition : c.inBytes.position = byteCount (c.done.reverse ++ c.lexeme) := by
    simp [inBytes, lexeme]
  rw [hsource, hposition]
  exact splitAt?_append _ _

theorem remainder?_inBytes : c.inBytes.remainder? = some c.remainder := by
  rw [ByteCursor.remainder?, splitAt?_position]
  rfl

theorem lexeme?_inBytes : c.inBytes.lexeme? = some c.lexeme := by
  have hstart : c.inBytes.start = byteCount c.done.reverse := by simp [inBytes]
  rw [ByteCursor.lexeme?, splitAt?_position, hstart]
  show (splitAt? (c.done.reverse ++ c.lexeme) (byteCount c.done.reverse) >>= fun x => some x.2) = _
  rw [splitAt?_append]
  rfl

theorem peek?_inBytes : c.inBytes.peek? = some c.peek := by
  rw [ByteCursor.peek?, remainder?_inBytes]
  obtain ⟨done, taken, rest, line, column⟩ := c
  cases rest <;> rfl

theorem atEnd_inBytes : c.inBytes.atEnd = c.atEnd := by
  have hcount := @byteCount_eq_zero c.rest
  rw [ByteCursor.atEnd, Cursor.atEnd, Bool.eq_iff_iff, decide_eq_true_iff, List.isEmpty_iff, ← hcount]
  simp [inBytes, Cursor.text, lexeme]
  omega

theorem next?_inBytes : c.inBytes.next? = some (c.peek, c.advance.inBytes) := by
  rw [ByteCursor.next?, peek?_inBytes, atEnd_inBytes]
  obtain ⟨done, taken, rest, line, column⟩ := c
  cases rest with
  | nil => rfl
  | cons x rest =>
    simp [Cursor.atEnd, peek, advance, inBytes, Cursor.text, lexeme]
    omega

/-- Stepping back fails only where it would lead in front of column 0. -/
theorem backUp?_inBytes :
    c.inBytes.backUp? = if 0 < c.inBytes.position ∧ c.column = 0 then none else some c.backUp.inBytes := by
  rw [ByteCursor.backUp?, splitAt?_position]
  obtain ⟨done, taken, rest, line, column⟩ := c
  -- The character in front of the position is the last of the lexeme, or the last in front of that.
  match taken, done with
  | x :: taken, done =>
    have hsize : x.utf8Size ≠ 0 := Nat.ne_of_gt x.utf8Size_pos
    have hback : byteCount done + (x.utf8Size + byteCount taken) - x.utf8Size =
        byteCount done + byteCount taken := by omega
    have hstart : ¬ byteCount done + byteCount taken < byteCount done := by omega
    cases column with
    | zero => simp [inBytes, lexeme, hsize]
    | succ column => simp [backUp, inBytes, Cursor.text, lexeme, hback, hstart]
  | [], x :: done =>
    have hsize : x.utf8Size ≠ 0 := Nat.ne_of_gt x.utf8Size_pos
    cases column with
    | zero => simp [inBytes, lexeme, hsize]
    | succ column => simp [backUp, inBytes, Cursor.text, lexeme, hsize]
  | [], [] => simp [backUp, inBytes, Cursor.text, lexeme]

theorem column_advance {c : Cursor} (h : c.rest ≠ []) : c.advance.column = c.column + 1 := by
  obtain ⟨done, taken, rest, line, column⟩ := c
  cases rest with
  | nil => exact absurd rfl h
  | cons => rfl

/-- A character that is not accepted is stepped back over within its line. -/
theorem acceptIf?_inBytes (p : Char → Bool) :
    c.inBytes.acceptIf? p = some ((c.acceptIf p).1, (c.acceptIf p).2.inBytes) := by
  rw [ByteCursor.acceptIf?, atEnd_inBytes, next?_inBytes]
  obtain ⟨done, taken, rest, line, column⟩ := c
  cases rest with
  | nil => rfl
  | cons x rest =>
    cases hp : p x with
    | true => simp [Cursor.atEnd, peek, acceptIf, holds, hp]
    | false =>
      have hback := backUp_advance (c := ⟨done, taken, x :: rest, line, column⟩) (by simp)
      have hbytes := (advance ⟨done, taken, x :: rest, line, column⟩).backUp?_inBytes
      rw [hback, if_neg (by simp [advance])] at hbytes
      simp [Cursor.atEnd, peek, acceptIf, holds, hp, hbytes]

theorem advanceN?_inBytes (n : Nat) : c.inBytes.advanceN? n = some (c.advanceN n).inBytes := by
  induction n generalizing c with
  | zero => rfl
  | succ n ih =>
    rw [ByteCursor.advanceN?, next?_inBytes]
    exact ih c.advance

theorem drop_inBytes : c.inBytes.drop = c.drop.inBytes := by
  simp [ByteCursor.drop, drop, inBytes, Cursor.text, lexeme, Nat.add_comm]

theorem skip?_inBytes : c.inBytes.skip? = some c.skip.inBytes := by
  rw [ByteCursor.skip?, next?_inBytes]
  exact congrArg some c.advance.drop_inBytes

/-- A move comes to the same on the offsets, unless it steps back from column 0. -/
theorem move?_inBytes (m : Move) :
    c.inBytes.move? m = some ((c.move m).1, (c.move m).2.inBytes) ∨
      m = .backUp ∧ 0 < c.inBytes.position ∧ c.column = 0 ∧ c.inBytes.move? m = none := by
  cases m with
  | backUp =>
    rw [ByteCursor.move?, backUp?_inBytes]
    by_cases h : 0 < c.inBytes.position ∧ c.column = 0
    · rw [if_pos h]
      exact .inr ⟨rfl, h.1, h.2, rfl⟩
    · rw [if_neg h]
      exact .inl rfl
  | next => exact .inl (by rw [ByteCursor.move?, next?_inBytes]; rfl)
  | accept | acceptIf | acceptNone => exact .inl (by rw [ByteCursor.move?, acceptIf?_inBytes]; rfl)
  | advanceN => exact .inl (by rw [ByteCursor.move?, advanceN?_inBytes]; rfl)
  | skip => exact .inl (by rw [ByteCursor.move?, skip?_inBytes]; rfl)
  | drop => exact .inl (by rw [ByteCursor.move?, drop_inBytes]; rfl)
  | newLine => exact .inl rfl

theorem text_acceptIf (p : Char → Bool) : (c.acceptIf p).2.text = c.text := by
  unfold acceptIf
  split <;> simp

theorem text_advanceN (n : Nat) : (c.advanceN n).text = c.text := by
  induction n generalizing c with
  | zero => rfl
  | succ n ih => rw [advanceN, ih, text_advance]

theorem text_move (m : Move) : (c.move m).2.text = c.text := by
  cases m with
  | next => exact c.text_advance
  | backUp => exact c.text_backUp
  | accept | acceptIf | acceptNone => exact c.text_acceptIf _
  | advanceN n => exact c.text_advanceN n
  | drop => exact c.text_drop
  | skip => exact (text_drop _).trans c.text_advance
  | newLine => rfl

theorem text_run (moves : List Move) : (c.run moves).2.text = c.text := by
  induction moves generalizing c with
  | nil => rfl
  | cons m moves ih => exact (ih (c.move m).2).trans (c.text_move m)

/-- Moves come to the same on the offsets, unless one of them steps back from column 0. -/
theorem run?_inBytes (moves : List Move) :
    c.inBytes.run? moves = some ((c.run moves).1, (c.run moves).2.inBytes) ∨
      c.inBytes.run? moves = none ∧ c.inBytes.LeavesLine moves := by
  induction moves generalizing c with
  | nil => exact .inl rfl
  | cons m moves ih =>
    rw [ByteCursor.run?]
    rcases c.move?_inBytes m with hm | ⟨rfl, hposition, hcolumn, hm⟩
    · rw [hm]
      rcases ih (c.move m).2 with hrun | ⟨hrun, before, after, replies, b, rfl, hbefore, hleaves⟩
      · exact .inl (by simp [hrun, run])
      · refine .inr ⟨by simp [hrun], m :: before, after, (c.move m).1 :: replies, b, rfl, ?_, hleaves⟩
        simp [ByteCursor.run?, hm, hbefore]
    · rw [hm]
      exact .inr ⟨rfl, [], moves, [], c.inBytes, rfl, rfl, hposition, hcolumn⟩

theorem sits_inBytes : c.inBytes.Sits c.text where
  source := rfl
  start := Nat.le_add_right _ _
  position := by simp [inBytes, Cursor.text, lexeme]
  pieces := by
    refine ⟨_, _, c.lexeme?_inBytes, c.remainder?_inBytes, c.done.reverse, ?_⟩
    simp [Cursor.text, remainder]

theorem move?_predicate? {m : Move} {p : Char → Bool} (h : m.predicate? = some p) :
    c.inBytes.move? m = some (.accepted (c.acceptIf p).1, (c.acceptIf p).2.inBytes) := by
  cases m with
  | accept | acceptIf | acceptNone =>
    cases h
    rw [ByteCursor.move?, acceptIf?_inBytes]
    rfl
  | _ => cases h

/-- What is accepted is the one character in front of the rest, which is not the sentinel. -/
theorem acceptIf_inBytes (p : Char → Bool) :
    if (c.acceptIf p).1 then
      ∃ x behind, c.inBytes.remainder? = some (x :: behind) ∧ behind ≠ [] ∧ p x ∧
        (c.acceptIf p).2.inBytes.remainder? = some behind ∧
        (c.acceptIf p).2.inBytes =
          { c.inBytes with position := c.inBytes.position + x.utf8Size, column := c.column + 1 }
    else (c.acceptIf p).2.inBytes = c.inBytes := by
  cases h : c.holds p with
  | false => simp [acceptIf, h]
  | true =>
    obtain ⟨done, taken, rest, line, column⟩ := c
    cases rest with
    | nil => cases h
    | cons x rest =>
      have hp : p x := h
      rw [acceptIf, if_pos h, if_pos rfl]
      refine ⟨x, rest ++ [sentinel], remainder?_inBytes _, by simp, hp, remainder?_inBytes _, ?_⟩
      simp [advance, inBytes, Cursor.text, lexeme]
      omega

theorem backUp?_advance (h : c.advance.inBytes.position ≠ c.inBytes.position) :
    c.advance.inBytes.backUp? = some c.inBytes := by
  have hrest : c.rest ≠ [] := by
    intro hrest
    simp [advance, hrest] at h
  rw [backUp?_inBytes, column_advance hrest, if_neg (by simp), backUp_advance hrest]

end Cursor

namespace ByteCursor

theorem run?_append_eq_none {b b₁ : ByteCursor} {before after : List Move} {replies : List Reply}
    (h : b.run? before = some (replies, b₁)) : b.run? (before ++ after) = none ↔ b₁.run? after = none := by
  induction before generalizing b replies with
  | nil =>
    cases h
    rfl
  | cons m before ih =>
    simp only [run?, Option.bind_eq_bind, Option.bind_eq_some_iff, Prod.exists, Option.pure_def] at h
    obtain ⟨reply, b₂, hm, replies', b₃, hbefore, hreplies⟩ := h
    cases hreplies
    rw [List.cons_append, run?, hm, ← ih hbefore]
    show (b₂.run? (before ++ after) >>= fun (rs, b₃) => some (reply :: rs, b₃)) = none ↔ _
    cases b₂.run? (before ++ after) <;> simp

/-- From the beginning of a text on, moves fail exactly if one of them steps back from column 0. -/
theorem run?_eq_none (text : List Char) (moves : List Move) :
    (ofText text).run? moves = none ↔ (ofText text).LeavesLine moves := by
  rw [← Cursor.inBytes_ofText]
  constructor
  · intro h
    rcases (Cursor.ofText text).run?_inBytes moves with hrun | ⟨-, hleaves⟩
    · cases h.symm.trans hrun
    · exact hleaves
  · rintro ⟨before, after, replies, b, rfl, hbefore, hposition, hcolumn⟩
    rw [run?_append_eq_none hbefore]
    rcases (Cursor.ofText text).run?_inBytes before with hrun | ⟨hnone, -⟩
    · cases hbefore.symm.trans hrun
      rw [run?, move?, Cursor.backUp?_inBytes, if_pos ⟨hposition, hcolumn⟩]
      rfl
    · cases hnone.symm.trans hbefore

/-- Moves over a text that never step back from column 0 lead where they lead the cursor, and keep the offsets in
order. From there on a character is either accepted, and that is the only one taken, or all stays as it is; and a
step back undoes a step ahead. -/
theorem offsets_consistent (text : List Char) (moves : List Move) :
    ((ofText text).run? moves = none ↔ (ofText text).LeavesLine moves) ∧
    ∀ replies b, (ofText text).run? moves = some (replies, b) →
      (∃ c, (Cursor.ofText text).run moves = (replies, c) ∧ b = c.inBytes) ∧
      b.Sits text ∧
      (∀ m p, m.predicate? = some p → ∃ yes b', b.move? m = some (.accepted yes, b') ∧
        if yes then
          ∃ x behind, b.remainder? = some (x :: behind) ∧ behind ≠ [] ∧ p x ∧ b'.remainder? = some behind ∧
            b' = { b with position := b.position + x.utf8Size, column := b.column + 1 }
        else b' = b) ∧
      ∀ x b', b.move? .next = some (.read x, b') → b'.position ≠ b.position →
        b'.move? .backUp = some (.done, b) := by
  refine ⟨run?_eq_none text moves, fun replies b hrun => ?_⟩
  rw [← Cursor.inBytes_ofText] at hrun
  have hcursor : (replies, b) =
      (((Cursor.ofText text).run moves).1, ((Cursor.ofText text).run moves).2.inBytes) := by
    rcases (Cursor.ofText text).run?_inBytes moves with hruns | ⟨hnone, -⟩
    · exact Option.some.inj (hrun.symm.trans hruns)
    · cases hnone.symm.trans hrun
  have htext := (Cursor.ofText text).text_run moves
  generalize hc : (Cursor.ofText text).run moves = end' at hcursor htext
  obtain ⟨replies', c⟩ := end'
  cases hcursor
  refine ⟨⟨c, rfl, rfl⟩, ?_, fun m p hm => ?_, fun x b' hnext hmoved => ?_⟩
  · have hsits := c.sits_inBytes
    rw [htext] at hsits
    exact hsits
  · exact ⟨_, _, c.move?_predicate? hm, c.acceptIf_inBytes p⟩
  · rw [move?, Cursor.next?_inBytes] at hnext
    cases hnext
    exact congrArg (Option.map (Reply.done, ·)) (c.backUp?_advance hmoved)

/-- Two steps back undo what was accepted and drag the lexeme along; from column 0 of a new line there is no step
back. -/
theorem offsets_consistent_back :
    let text := ['\x00', 'é']
    let back : List Move := [.accept '\x00', .drop, .accept 'x', .next, .backUp, .backUp]
    (ofText text).run? back =
        some ([.accepted true, .done, .accepted false, .read 'é', .done, .done], ofText text) ∧
      (ofText text).Sits text ∧ (ofText text).LeavesLine [.next, .next, .newLine, .backUp, .backUp] := by
  intro text back
  have hrun : (ofText text).run? back =
      some ([.accepted true, .done, .accepted false, .read 'é', .done, .done], ofText text) := by
    decide +kernel
  have hleaves : (ofText text).run? [.next, .next, .newLine, .backUp, .backUp] = none := by decide +kernel
  exact ⟨hrun, ((offsets_consistent text back).2 _ _ hrun).2.1, (offsets_consistent text _).1.mp hleaves⟩

end ByteCursor

end Offside.Source
