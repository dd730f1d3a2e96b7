import Mathlib.Data.List.DropRight
import Offside.Diagnostic

/-!
# The lines under a message

A diagnostic quotes the line that it points into between two lines that say which column is meant. The bars of the
three lines stand under each other, however long the number of the line is, and the caret stands under the character
that the column counts.
-/

namespace Offside

set_option autoImplicit false

namespace Source

variable {line text : List Char}

theorem newline_not_mem_split (text : List Char) : ∀ line ∈ split text, '\n' ∉ line := by
  induction text with
  | nil => simp [split]
  | cons c text ih =>
    rw [split]
    split
    · next first rest hsplit =>
      rw [hsplit] at ih
      obtain ⟨hfirst, hrest⟩ := List.forall_mem_cons.mp ih
      split
      · exact List.forall_mem_cons.mpr ⟨List.not_mem_nil, List.forall_mem_cons.mpr ⟨hfirst, hrest⟩⟩
      · next hc =>
        refine List.forall_mem_cons.mpr ⟨?_, hrest⟩
        rw [List.mem_cons, not_or]
        exact ⟨Ne.symm hc, hfirst⟩
    · next hsplit => exact absurd hsplit (split_ne_nil text)

theorem newline_not_mem_of_line? {source : String} {n : Nat} (h : line? source n = some line) : '\n' ∉ line := by
  cases n with
  | zero => cases h
  | succ n =>
    obtain ⟨whole, hwhole, rfl⟩ := Option.map_eq_some_iff.mp h
    have hfree := newline_not_mem_split _ whole (List.mem_of_getElem? hwhole)
    unfold dropReturn
    split
    · exact fun hmem => hfree (List.dropLast_subset _ hmem)
    · exact hfree

end Source

namespace Diagnostic

/-- The first `x` of the text stands behind `n` characters. -/
def FirstAt (x : Char) (n : Nat) (text : List Char) : Prop := text[n]? = some x ∧ x ∉ text.take n

theorem firstAt_append {x : Char} {front : List Char} (h : x ∉ front) (back : List Char) :
    FirstAt x front.length (front ++ x :: back) := by
  constructor
  · rw [List.getElem?_append_right (Nat.le_refl _), Nat.sub_self]
    rfl
  · rw [List.take_left]
    exact h

/-- What stands before the text of a quoted line. -/
def label (number : Nat) : List Char := (toString number).toList ++ [' ', '|', ' ']

def indentOf (line : List Char) : Nat := (line.takeWhile Source.isIndent).length

/-- The lines above and below the quoted one point at a column of the line `text`, whose number is `number`. -/
structure PointsInto (number column : Nat) (text above quoted below : List Char) : Prop where
  /-- None of the three is more than one line. -/
  newline_not_mem : '\n' ∉ above ++ quoted ++ below
  /-- The line is quoted from behind its indentation up to the blanks at its end. -/
  quotes : ∃ shown cut, quoted = label number ++ shown ∧ text.drop (indentOf text) = shown ++ cut ∧
    (∀ c ∈ cut, Text.isWhiteSpace c) ∧ ∀ c ∈ shown.getLast?, Text.isWhiteSpace c = false
  /-- All but the bars, the dashes and the caret is blank. -/
  shapes : ∃ width dashes, above = List.replicate width ' ' ++ ['|'] ∧
    below = List.replicate width ' ' ++ ['|', ' '] ++ List.replicate dashes '-' ++ ['^']
  bars : ∃ offset, FirstAt '|' offset above ∧ FirstAt '|' offset quoted ∧ FirstAt '|' offset below
  /-- Behind the indentation the caret stands at the column, or where the column would be. -/
  caret : indentOf text < column → ∃ offset, FirstAt '^' offset below ∧
    offset = (label number).length + (column - 1 - indentOf text) ∧
    (label number ++ text.drop (indentOf text))[offset]? = text[column - 1]?
  /-- In the indentation it stands at its end. -/
  caret_indent : column ≤ indentOf text → FirstAt '^' (label number).length below

theorem toList_toString (n : Nat) : (toString n).toList = Nat.toDigits 10 n := by
  simp [toString, Nat.repr]

theorem not_mem_digits {x : Char} (hx : x.isDigit = false) (n : Nat) : x ∉ (toString n).toList := by
  rw [toList_toString]
  intro hmem
  have hdigit := Nat.isDigit_of_mem_toDigits (by decide) (by decide) hmem
  rw [hx] at hdigit
  cases hdigit

theorem length_label (n : Nat) : (label n).length = (toString n).toList.length + 3 := by
  simp [label]

/-! ## The quoted line -/

theorem trimEnd_eq (line : List Char) : trimEnd line = line.rdropWhile Text.isWhiteSpace := rfl

theorem trimEnd_splits (line : List Char) : ∃ cut, line = trimEnd line ++ cut ∧
    (∀ c ∈ cut, Text.isWhiteSpace c) ∧ ∀ c ∈ (trimEnd line).getLast?, Text.isWhiteSpace c = false := by
  refine ⟨line.rtakeWhile Text.isWhiteSpace, ?_, fun c hc => List.mem_rtakeWhile_imp hc, ?_⟩
  · rw [trimEnd_eq, List.rdropWhile_append_rtakeWhile]
  · intro c hc
    rw [trimEnd_eq] at hc
    obtain ⟨hne, rfl⟩ := List.mem_getLast?_eq_getLast hc
    exact Bool.eq_false_iff.mpr (List.rdropWhile_last_not _ _ hne)

theorem firstAt_bar_quoted (number : Nat) (shown : List Char) :
    FirstAt '|' ((toString number).toList.length + 1) (label number ++ shown) := by
  have hfree : '|' ∉ (toString number).toList ++ [' '] :=
    List.not_mem_append (not_mem_digits (by decide) number) (by decide)
  have hfirst := firstAt_append hfree (' ' :: shown)
  simpa [label] using hfirst

/-! ## The lines around it -/

theorem firstAt_bar_gutter (width : Nat) (back : List Char) : FirstAt '|' (width + 1) (gutter width ++ back) := by
  have hfree : '|' ∉ List.replicate (width + 1) ' ' := by simp
  have hfirst := firstAt_append hfree back
  rw [List.length_replicate] at hfirst
  simpa [gutter] using hfirst

theorem firstAt_caret (width column indent : Nat) :
    FirstAt '^' (width + 3 + (max column 1 - indent - 1)) (gutter width ++ ' ' :: caret column indent) := by
  have hfree : '^' ∉ gutter width ++ ' ' :: List.replicate (max column 1 - indent - 1) '-' := by
    simp [gutter]
  have hfirst := firstAt_append hfree []
  have hlength : (gutter width ++ ' ' :: List.replicate (max column 1 - indent - 1) '-').length =
      width + 3 + (max column 1 - indent - 1) := by
    simp [gutter]
    omega
  rw [hlength] at hfirst
  simpa [caret] using hfirst

theorem newline_not_mem_caret (column indent : Nat) : '\n' ∉ caret column indent := by
  simp [caret]

theorem newline_not_mem_gutter (width : Nat) : '\n' ∉ gutter width := by
  simp [gutter]

theorem newline_not_mem_quoted (number : Nat) {shown line : List Char} (h : '\n' ∉ line) (hshown : shown ⊆ line) :
    '\n' ∉ label number ++ shown := by
  have hdigits := not_mem_digits (x := '\n') (by decide) number
  have hbar : '\n' ∉ [' ', '|', ' '] := by decide
  exact List.not_mem_append (List.not_mem_append hdigits hbar) fun hmem => h (hshown hmem)

theorem pointsInto_excerpt (number column : Nat) {line : List Char} (h : '\n' ∉ line) :
    ∃ above quoted below, excerpt number column line = [above, quoted, below] ∧
      PointsInto number column line above quoted below := by
  obtain ⟨cut, hcut, hblank, hlast⟩ := trimEnd_splits (line.drop (indentOf line))
  have hshown : trimEnd (line.drop (indentOf line)) ⊆ line := by
    intro c hc
    refine List.mem_of_mem_drop (i := indentOf line) ?_
    rw [hcut]
    exact List.mem_append_left _ hc
  have hcaret := firstAt_caret (toString number).toList.length column (indentOf line)
  refine ⟨_, label number ++ trimEnd (line.drop (indentOf line)), _, rfl, ?_⟩
  constructor
  case newline_not_mem =>
    have hgutter := newline_not_mem_gutter (toString number).toList.length
    have hquoted := newline_not_mem_quoted number h hshown
    have hline : '\n' ∉ ' ' :: caret column (indentOf line) := by
      rw [List.mem_cons, not_or]
      exact ⟨by decide, newline_not_mem_caret column (indentOf line)⟩
    exact List.not_mem_append (List.not_mem_append hgutter hquoted) (List.not_mem_append hgutter hline)
  case quotes => exact ⟨_, cut, rfl, hcut, hblank, hlast⟩
  case shapes =>
    refine ⟨_, max column 1 - indentOf line - 1, rfl, ?_⟩
    simp [gutter, caret, indentOf]
  case bars =>
    have habove := firstAt_bar_gutter (toString number).toList.length []
    rw [List.append_nil] at habove
    exact ⟨_, habove, firstAt_bar_quoted number _, firstAt_bar_gutter _ _⟩
  case caret =>
    intro hcolumn
    refine ⟨_, hcaret, ?_, ?_⟩
    · rw [length_label]
      omega
    · have hoffset : (toString number).toList.length + 3 + (max column 1 - indentOf line - 1) =
          (label number).length + (column - 1 - indentOf line) := by
        rw [length_label]
        omega
      rw [hoffset, List.getElem?_append_right (Nat.le_add_right _ _), Nat.add_sub_cancel_left, List.getElem?_drop]
      congr 1
      omega
  case caret_indent =>
    intro hcolumn
    have hoffset : (toString number).toList.length + 3 + (max column 1 - indentOf line - 1) =
        (label number).length := by
      rw [length_label]
      omega
    rw [← hoffset]
    exact hcaret

/-- A diagnostic whose line exists is shown by its message and by just three lines more, which quote the line and point
at the column. -/
theorem render_points {d : Diagnostic} {source : String} {line : List Char}
    (h : Source.line? source d.location.line = some line) :
    ∃ above quoted below : List Char,
      (d.render source).toList =
        d.toText.toList ++ ['\n'] ++ (above ++ ['\n'] ++ (quoted ++ ['\n'] ++ (below ++ ['\n']))) ∧
      PointsInto d.location.line d.location.column line above quoted below := by
  obtain ⟨above, quoted, below, hexcerpt, hpoints⟩ :=
    pointsInto_excerpt d.location.line d.location.column (Source.newline_not_mem_of_line? h)
  refine ⟨above, quoted, below, ?_, hpoints⟩
  unfold render
  rw [h, String.toList_ofList]
  dsimp only
  rw [hexcerpt]
  simp

/-- A column behind a tab, in a line whose last blank is cut off. -/
theorem render_points_tab :
    let d : Diagnostic := ⟨.typeMismatch, ⟨"f", 3, 4⟩⟩
    let line : List Char := ['\t', 'a', '+', 'b', ' ']
    Source.line? "\n\n\ta+b \r\n" 3 = some line ∧ ∃ above quoted below : List Char,
      (d.render "\n\n\ta+b \r\n").toList =
        d.toText.toList ++ ['\n'] ++ (above ++ ['\n'] ++ (quoted ++ ['\n'] ++ (below ++ ['\n']))) ∧
      PointsInto 3 4 line above quoted below := by
  intro d line
  have hline : Source.line? "\n\n\ta+b \r\n" 3 = some line := by decide
  exact ⟨hline, render_points (d := d) hline⟩

end Diagnostic

end Offside
