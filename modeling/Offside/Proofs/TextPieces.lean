import Offside.Proofs.SourceSpans

/-!
# The pieces of a text

A text falls into blanks, line feeds, comments and words, each of which ends where what stands behind it can be
no part of it. That is said without a scanner; a scanner that gets somewhere in a text gets there piece by
piece. A text ends inside of a comment if a comment begins behind some of its pieces and is not closed.
-/

namespace Offside

set_option autoImplicit false

open Scanner (isBlank Closes)

/-- What is read at once, in front of `rest`. -/
inductive IsPiece : List Char → List Char → Prop where
  | blanks {text rest : List Char} : text ≠ [] → (∀ c ∈ text, isBlank c) → Stops isBlank rest →
      IsPiece text rest
  | newline {rest : List Char} : IsPiece ['\n'] rest
  | lineComment {text rest : List Char} : '\n' ∉ text → Stops (· ≠ '\n') rest →
      IsPiece ('/' :: '/' :: text) rest
  | blockComment {text rest : List Char} : Closes 1 text → IsPiece ('/' :: '*' :: text) rest
  | word {span rest : List Char} {l : Lexeme} : Lexeme.Forms span l rest → IsPiece span rest

/-- The text falls into pieces, in front of `rest`. -/
inductive Parted : List Char → List Char → Prop where
  | nil {rest : List Char} : Parted [] rest
  | cons {text more rest : List Char} : IsPiece text (more ++ rest) → Parted more rest →
      Parted (text ++ more) rest

/-- A block comment begins in the text and is still open at its end. -/
def InComment (text : List Char) : Prop :=
  ∃ before inner, text = before ++ '/' :: '*' :: inner ∧ Parted before ('/' :: '*' :: inner) ∧
    ∀ closed, closed <+: inner → ¬ Closes 1 closed

variable {text more rest before : List Char} {file : String}

theorem IsPiece.ne_nil (h : IsPiece text rest) : text ≠ [] := by
  cases h with
  | blanks hne => exact hne
  | newline => exact List.cons_ne_nil _ _
  | lineComment => exact List.cons_ne_nil _ _
  | blockComment => exact List.cons_ne_nil _ _
  | word hforms =>
    obtain ⟨c, more, rfl, -⟩ := hforms.first
    exact List.cons_ne_nil _ _

theorem Stops.extend {p : Char → Bool} (h : Stops p rest) (hne : rest ≠ []) (more : List Char) :
    Stops p (rest ++ more) :=
  Stops.append h fun hnil => absurd hnil hne

/-- Where a piece ends does not depend on what stands further behind. -/
theorem IsPiece.extend (h : IsPiece text rest) (hne : rest ≠ []) (more : List Char) :
    IsPiece text (rest ++ more) := by
  cases h with
  | blanks htext hall hstops => exact .blanks htext hall (hstops.extend hne more)
  | newline => exact .newline
  | lineComment hline hstops => exact .lineComment hline (hstops.extend hne more)
  | blockComment hcloses => exact .blockComment hcloses
  | word hforms => exact .word (hforms.replace (.inr ⟨hne, List.prefix_append rest more⟩))

theorem Parted.extend (h : Parted text rest) (hne : rest ≠ []) (more : List Char) :
    Parted text (rest ++ more) := by
  induction h with
  | nil => exact .nil
  | @cons text tail rest hpiece _ ih =>
    refine .cons ?_ (ih hne)
    rw [← List.append_assoc]
    exact hpiece.extend (by simp [hne]) more

/-- A comment that is not closed has no end in the text. -/
theorem comment?_eq_none_iff :
    Lexeme.comment? 1 text = none ↔ ∀ closed, closed <+: text → ¬ Closes 1 closed := by
  constructor
  · rintro hnone closed ⟨rest, rfl⟩ hcloses
    rw [Scanner.comment?_complete hcloses] at hnone
    cases hnone
  · intro h
    cases hcomment : Lexeme.comment? 1 text with
    | none => rfl
    | some closed =>
      obtain ⟨rest, rfl, hcloses⟩ := Scanner.comment?_sound hcomment
      exact absurd hcloses (h closed (List.prefix_append closed rest))

namespace Scanner

variable {s s' : Scanner} {c : Char} {cs : List Char} {read : List Token}

/-! ## Pieces and steps -/

/-- A scanner reads one piece in one step. -/
theorem Step.isPiece (h : s.Step c cs read s') (hat : s.At file before (c :: cs)) :
    ∃ text rest, c :: cs = text ++ rest ∧ IsPiece text rest ∧ s'.At file (before ++ text) rest := by
  cases h with
  | blanks hblank hb =>
    obtain ⟨level, -, rfl⟩ := blanks_eq_ok.mp hb
    have hcut : (c :: cs).takeWhile isBlank ++ (c :: cs).dropWhile isBlank = c :: cs :=
      List.takeWhile_append_dropWhile
    have hall : ∀ d ∈ (c :: cs).takeWhile isBlank, isBlank d := fun d hd => mem_takeWhile hd
    have hpass := At.pass (hcut.symm ▸ hat) (not_mem_of_forall (by decide) hall)
    refine ⟨_, _, hcut.symm, .blanks ?_ hall (stops_dropWhile _ _), ?_⟩
    · rw [List.takeWhile_cons_of_pos hblank]
      exact List.cons_ne_nil _ _
    · rw [hat.rest]
      exact ⟨hpass.rest, hpass.place⟩
  | newline => exact ⟨['\n'], cs, rfl, .newline, hat.endLine⟩
  | @lineComment cs =>
    have hcut : ('/' :: '/' :: cs).takeWhile (· ≠ '\n') ++ ('/' :: '/' :: cs).dropWhile (· ≠ '\n') =
        '/' :: '/' :: cs := List.takeWhile_append_dropWhile
    have hline : '\n' ∉ ('/' :: '/' :: cs).takeWhile (· ≠ '\n') :=
      not_mem_of_forall (p := (· ≠ '\n')) (by decide) fun d hd => mem_takeWhile hd
    refine ⟨_, _, hcut.symm, ?_, At.pass (hcut.symm ▸ hat) hline⟩
    rw [List.takeWhile_cons_of_pos (by decide), List.takeWhile_cons_of_pos (by decide)] at hline ⊢
    exact .lineComment (by simpa using hline) (stops_dropWhile _ _)
  | @blockComment text rest hcloses =>
    have hat' : s.At file before ('/' :: '*' :: text ++ rest) := hat
    exact ⟨'/' :: '*' :: text, rest, rfl, .blockComment hcloses, hat'.passText⟩
  | @lexeme _ _ span rest l hcs hforms =>
    rw [hcs] at hat
    have hpass := hat.pass hforms.newline_not_mem
    rw [← hforms.size_eq] at hpass
    exact ⟨span, rest, hcs, .word hforms, hpass.rest, hpass.place⟩

/-- Behind the first piece of a text stands the scanner that has read it. -/
theorem At.piece_of_isPiece (h : IsPiece text rest) (hat : s.At file before (text ++ rest))
    (hcs : c :: cs = text ++ rest) (hp : s.piece c cs = .ok (read, s')) :
    s'.At file (before ++ text) rest := by
  cases h with
  | blanks hne hall hstops =>
    have hblank : isBlank c := by
      obtain ⟨d, more, rfl⟩ := List.exists_cons_of_ne_nil hne
      obtain ⟨rfl, -⟩ := List.cons.inj hcs
      exact hall c List.mem_cons_self
    have hpass := hat.pass (not_mem_of_forall (by decide) hall)
    rw [piece_blank hblank, blanks_eq, hat.rest, takeWhile_append_stops hall hstops] at hp
    cases hl : levelBehind s.cursor.column s.level (text ++ rest) with
    | error fault => simp [hl, Except.map] at hp
    | ok level =>
      simp only [hl, Except.map, Except.ok.injEq, Prod.mk.injEq] at hp
      rw [← hp.2]
      exact ⟨hpass.rest, hpass.place⟩
  | newline =>
    obtain ⟨rfl, rfl⟩ := List.cons.inj hcs
    rw [piece_newline] at hp
    simp only [Except.ok.injEq, Prod.ext_iff] at hp
    rw [← hp.2]
    exact hat.endLine
  | @lineComment text _ hline hstops =>
    obtain ⟨rfl, rfl⟩ := List.cons.inj hcs
    have hfeed : '\n' ∉ '/' :: '/' :: text := by simpa using hline
    have htake : ('/' :: '/' :: text ++ rest).takeWhile (· ≠ '\n') = '/' :: '/' :: text :=
      takeWhile_append_stops (forall_ne_of_not_mem hfeed) hstops
    change s.piece '/' ('/' :: (text ++ rest)) = .ok (read, s') at hp
    rw [piece_lineComment] at hp
    simp only [Except.ok.injEq, Prod.mk.injEq] at hp
    rw [← hp.2]
    exact htake ▸ hat.pass hfeed
  | @blockComment text _ hcloses =>
    obtain ⟨rfl, rfl⟩ := List.cons.inj hcs
    change s.piece '/' ('*' :: (text ++ rest)) = .ok (read, s') at hp
    rw [piece_blockComment, comment?_complete hcloses] at hp
    simp only [Except.ok.injEq, Prod.ext_iff] at hp
    rw [← hp.2]
    exact hat.passText
  | word hforms =>
    have hpass := hat.pass hforms.newline_not_mem
    rw [piece_of_forms hforms hcs] at hp
    simp only [Except.ok.injEq, Prod.ext_iff] at hp
    rw [← hp.2]
    rw [← hforms.size_eq] at hpass
    exact ⟨hpass.rest, hpass.place⟩

/-! ## Parts and runs -/

/-- A scanner gets anywhere piece by piece. -/
theorem Run.parted (h : Run s read s') (hat : s.At file before rest) :
    ∃ text rest', rest = text ++ rest' ∧ Parted text rest' ∧ s'.At file (before ++ text) rest' := by
  induction h generalizing before rest with
  | refl => exact ⟨[], rest, rfl, .nil, by rwa [List.append_nil]⟩
  | @step s s₁ s' c cs read more hrest hp _ ih =>
    obtain rfl : c :: cs = rest := hrest.symm.trans hat.rest
    obtain ⟨text, rest₁, hcs, hpiece, hat₁⟩ := (step_of_piece hp).isPiece hat
    obtain ⟨text', rest', rfl, hparted, hat'⟩ := ih hat₁
    exact ⟨text ++ text', rest', by rw [hcs, List.append_assoc], .cons hpiece hparted,
      by rwa [← List.append_assoc]⟩

/-- On its way a scanner comes by the end of every part that is behind it then. -/
theorem Run.through (h : Run s read s') (hparted : Parted text rest)
    (hat : s.At file before (text ++ rest)) (hle : s'.cursor.rest.length ≤ rest.length) :
    ∃ read₁ read₂ s₁, read = read₁ ++ read₂ ∧ Run s read₁ s₁ ∧ s₁.At file (before ++ text) rest ∧
      Run s₁ read₂ s' := by
  induction hparted generalizing s before read with
  | nil => exact ⟨[], read, s, rfl, .refl s, by rwa [List.append_nil], h⟩
  | @cons text more rest hpiece _ ih =>
    have hlt : rest.length < (text ++ more ++ rest).length := by
      have := List.length_pos_iff.mpr hpiece.ne_nil
      simp only [List.length_append]
      omega
    cases h with
    | refl =>
      rw [hat.rest] at hle
      omega
    | @step _ s₂ _ c cs first read hrest hp hrun =>
      rw [List.append_assoc] at hat
      have hat₂ := hat.piece_of_isPiece hpiece (hrest.symm.trans hat.rest) hp
      obtain ⟨read₁, read₂, s₁, rfl, hrun₁, hat₁, hrun₂⟩ := ih hrun hat₂ hle
      exact ⟨first ++ read₁, read₂, s₁, (List.append_assoc ..).symm, .step hrest hp hrun₁,
        by rwa [← List.append_assoc], hrun₂⟩

theorem Run.length_le (h : Run s read s') : s'.cursor.rest.length ≤ s.cursor.rest.length := by
  induction h with
  | refl => exact Nat.le_refl _
  | step hrest hp _ ih => exact Nat.le_trans ih (Nat.le_of_lt (piece_lt hrest hp))

/-- A comment that is open at the end of a text is read to its end behind it. -/
theorem piece_openComment {inner : List Char} (hopen : ∀ closed, closed <+: inner → ¬ Closes 1 closed)
    (hp : s.piece '/' ('*' :: (inner ++ rest)) = .ok (read, s')) :
    ∃ more tail, more ≠ [] ∧ rest = more ++ tail ∧
      s.passText ('/' :: '*' :: (inner ++ more)) = (read, s') := by
  rw [piece_blockComment] at hp
  cases hcomment : Lexeme.comment? 1 (inner ++ rest) with
  | none => simp [hcomment] at hp
  | some closed =>
    simp only [hcomment, Except.ok.injEq] at hp
    obtain ⟨tail, hcut, hcloses⟩ := comment?_sound hcomment
    rcases List.append_eq_append_iff.mp hcut with ⟨more, rfl, rfl⟩ | ⟨more, rfl, -⟩
    · refine ⟨more, tail, ?_, rfl, hp⟩
      rintro rfl
      exact hopen inner List.prefix_rfl (by simpa using hcloses)
    · exact absurd hcloses (hopen closed (List.prefix_append closed more))

/-- Between two pieces no comment is open. -/
theorem Run.not_inComment {source : List Char} (h : Run (start file source) read s)
    (hsource : source = text ++ rest) (hrest : s.cursor.rest = rest) : ¬ InComment text := by
  rintro ⟨before, inner, rfl, hparted, hopen⟩
  have hparted' := hparted.extend (List.cons_ne_nil _ _) rest
  have hat : (start file source).At file [] (before ++ ('/' :: '*' :: inner ++ rest)) := by
    rw [hsource, List.append_assoc]
    exact at_start ..
  have hle : s.cursor.rest.length ≤ ('/' :: '*' :: inner ++ rest).length := by
    rw [hrest, List.length_append]
    exact Nat.le_add_left ..
  obtain ⟨-, read₂, s₁, -, -, hat₁, hrun⟩ := h.through hparted' hat hle
  cases hrun with
  | refl =>
    have hlength := congrArg List.length (hat₁.rest.symm.trans hrest)
    simp only [List.length_append, List.length_cons] at hlength
    omega
  | @step _ s₂ _ c cs _ _ hrest₁ hp hrun₂ =>
    obtain ⟨rfl, rfl⟩ := List.cons.inj (hrest₁.symm.trans hat₁.rest)
    obtain ⟨more, tail, hne, rfl, hpass⟩ := piece_openComment hopen hp
    have hle₂ := hrun₂.length_le
    have hpos := List.length_pos_iff.mpr hne
    have hat₂ : s₁.At file ([] ++ before) ('/' :: '*' :: (inner ++ more) ++ tail) := by
      simpa using hat₁
    have hpassed := hat₂.passText.rest
    rw [hpass] at hpassed
    rw [hpassed, hrest, List.length_append] at hle₂
    omega

end Scanner

end Offside
