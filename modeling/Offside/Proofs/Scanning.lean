import Offside.Proofs.LexemeReading

/-!
# The pieces of a text

What a scanner does with each kind of piece, where it stands behind it, and how it runs through the pieces
of a text to its end or to the first fault.
-/

namespace Offside

set_option autoImplicit false

open Source (Cursor isIndent)

/-! ## Places -/

/-- The place of what follows `before` in a text. -/
def placeAfter (file : String) (before : List Char) : Location :=
  ⟨file, 1 + before.count '\n', 1 + (before.reverse.takeWhile (· ≠ '\n')).length⟩

theorem placeAfter_append (file : String) (before : List Char) {text : List Char}
    (h : '\n' ∉ text) :
    placeAfter file (before ++ text) =
      ⟨file, (placeAfter file before).line, (placeAfter file before).column + text.length⟩ := by
  have hall := forall_ne_of_not_mem (mt List.mem_reverse.mp h)
  simp only [placeAfter, List.count_append, List.count_eq_zero_of_not_mem h, List.reverse_append,
    List.takeWhile_append_of_pos hall, List.length_append, List.length_reverse, Location.mk.injEq,
    true_and]
  omega

theorem placeAfter_newline (file : String) (before : List Char) :
    placeAfter file (before ++ ['\n']) = ⟨file, (placeAfter file before).line + 1, 1⟩ := by
  simp only [placeAfter, List.count_append, List.count_singleton_self, List.reverse_append,
    List.reverse_singleton, List.singleton_append, Location.mk.injEq, true_and]
  exact ⟨by omega, by simp⟩

namespace Scanner

theorem column_advanceN {n : Nat} {c : Cursor} (h : n ≤ c.rest.length) :
    (c.advanceN n).column = c.column + n := by
  induction n generalizing c with
  | zero => rfl
  | succ n ih =>
    obtain ⟨x, rest, hrest⟩ := List.exists_cons_of_length_pos (Nat.lt_of_lt_of_le n.succ_pos h)
    have hstep : c.advance.column = c.column + 1 := by simp [Cursor.advance, hrest]
    have hle : n ≤ c.advance.rest.length := by
      simp only [Cursor.rest_advance, List.length_tail]
      omega
    rw [Cursor.advanceN, ih hle, hstep]
    omega

/-- The scanner stands behind `before` and in front of `rest`, and has the place of `rest`. -/
structure At (s : Scanner) (file : String) (before rest : List Char) : Prop where
  rest : s.cursor.rest = rest
  place : s.place = placeAfter file before

theorem at_start (file : String) (source : List Char) : (start file source).At file [] source :=
  ⟨rfl, rfl⟩

variable {s s' : Scanner} {file : String} {before rest text : List Char}

theorem At.pass (h : s.At file before (text ++ rest)) (hn : '\n' ∉ text) :
    (s.pass text.length).At file (before ++ text) rest := by
  have hle : text.length ≤ s.cursor.rest.length := by simp [h.rest]
  refine ⟨by rw [rest_pass, h.rest, List.drop_left], ?_⟩
  have hplace := h.place
  rw [placeAfter_append file before hn, ← hplace]
  have hfile : s.file = file := congrArg Location.file hplace
  simp only [Scanner.place, Scanner.pass, Cursor.drop, Cursor.line_advanceN, column_advanceN hle,
    hfile]

theorem At.endLine (h : s.At file before ('\n' :: rest)) :
    s.endLine.2.At file (before ++ ['\n']) rest := by
  refine ⟨by rw [rest_endLine, h.rest, List.tail_cons], ?_⟩
  have hplace := h.place
  rw [placeAfter_newline, ← hplace]
  have hfile : s.file = file := congrArg Location.file hplace
  simp [Scanner.place, Scanner.endLine, Cursor.newLine, Cursor.skip, Cursor.drop, hfile]

theorem At.passText (h : s.At file before (text ++ rest)) :
    (s.passText text).2.At file (before ++ text) rest := by
  induction text generalizing s before with
  | nil => simpa [Scanner.passText] using h
  | cons c text ih =>
    rw [List.append_cons]
    by_cases hc : c = '\n'
    · subst hc
      simp only [Scanner.passText, if_true]
      exact ih h.endLine
    · have hone : s.At file before ([c] ++ (text ++ rest)) := h
      simp only [Scanner.passText, hc, if_false]
      exact ih (hone.pass (by simpa using Ne.symm hc))

/-! ## Comments -/

/-- The rest of a block comment, in which `depth` comments are open, to its end. -/
inductive Closes : Nat → List Char → Prop where
  | last : Closes 1 ['*', '/']
  | close {depth : Nat} {text : List Char} : Closes (depth + 1) text →
      Closes (depth + 2) ('*' :: '/' :: text)
  | opens {depth : Nat} {text : List Char} : Closes (depth + 1) text →
      Closes depth ('/' :: '*' :: text)
  | other {depth : Nat} {c : Char} {text : List Char} : ¬ ['*', '/'] <+: c :: text →
      ¬ ['/', '*'] <+: c :: text → Closes depth text → Closes depth (c :: text)

theorem Closes.ne_nil {depth : Nat} (h : Closes depth text) : text ≠ [] := by
  cases h <;> simp

theorem prefix_pair_append {a b c : Char} (hne : text ≠ []) (rest : List Char) :
    [a, b] <+: c :: (text ++ rest) ↔ [a, b] <+: c :: text := by
  cases text with
  | nil => exact absurd rfl hne
  | cons d text => simp

theorem comment?_sound {depth : Nat} {cs text : List Char}
    (h : Lexeme.comment? (depth + 1) cs = some text) :
    ∃ rest, cs = text ++ rest ∧ Closes (depth + 1) text := by
  induction hn : cs.length using Nat.strongRecOn generalizing depth cs text with
  | ind n ih =>
    unfold Lexeme.comment? at h
    split at h
    · cases h
    · next cs =>
      split at h
      · next hdepth =>
        cases h
        obtain rfl : depth = 0 := by omega
        exact ⟨cs, rfl, .last⟩
      · next hdepth =>
        obtain ⟨more, hmore, rfl⟩ := Option.map_eq_some_iff.mp h
        obtain ⟨depth, rfl⟩ : ∃ d, depth = d + 1 := ⟨depth - 1, by omega⟩
        obtain ⟨rest, rfl, hcloses⟩ := ih _ (by simp only [← hn, List.length_cons]; omega) hmore rfl
        exact ⟨rest, rfl, .close hcloses⟩
    · next cs =>
      obtain ⟨more, hmore, rfl⟩ := Option.map_eq_some_iff.mp h
      obtain ⟨rest, rfl, hcloses⟩ := ih _ (by simp only [← hn, List.length_cons]; omega) hmore rfl
      exact ⟨rest, rfl, .opens hcloses⟩
    · next c cs hclose hopen =>
      obtain ⟨more, hmore, rfl⟩ := Option.map_eq_some_iff.mp h
      obtain ⟨rest, rfl, hcloses⟩ := ih _ (by simp [← hn]) hmore rfl
      refine ⟨rest, rfl, .other ?_ ?_ hcloses⟩
      · rw [← prefix_pair_append hcloses.ne_nil rest]
        rintro ⟨tail, htail⟩
        obtain ⟨rfl, heq⟩ := List.cons.inj htail
        exact hclose tail rfl heq.symm
      · rw [← prefix_pair_append hcloses.ne_nil rest]
        rintro ⟨tail, htail⟩
        obtain ⟨rfl, heq⟩ := List.cons.inj htail
        exact hopen tail rfl heq.symm

theorem comment?_complete {depth : Nat} (h : Closes depth text) (rest : List Char) :
    Lexeme.comment? depth (text ++ rest) = some text := by
  induction h with
  | last => simp [Lexeme.comment?]
  | @close depth text _ ih => simp [Lexeme.comment?, ih]
  | @opens depth text _ ih => simp [Lexeme.comment?, ih]
  | @other depth c text hclose hopen hcloses ih =>
    rw [← prefix_pair_append hcloses.ne_nil rest] at hclose hopen
    rw [List.cons_append, Lexeme.comment?, ih]
    · rfl
    · rintro cs rfl hcs
      exact hclose ⟨cs, by rw [hcs]; rfl⟩
    · rintro cs rfl hcs
      exact hopen ⟨cs, by rw [hcs]; rfl⟩

/-! ## Pieces -/

theorem piece_blank {c : Char} (hc : isBlank c) (s : Scanner) (cs : List Char) :
    s.piece c cs = s.blanks.map ([], ·) := by
  unfold piece
  rw [if_pos hc]
  cases s.blanks <;> rfl

theorem piece_newline (s : Scanner) (cs : List Char) : s.piece '\n' cs = .ok s.endLine := by
  unfold piece
  rw [if_neg (by decide), if_pos rfl]

theorem piece_lineComment (s : Scanner) (cs : List Char) :
    s.piece '/' ('/' :: cs) =
      .ok ([], s.pass (('/' :: '/' :: cs).takeWhile (· ≠ '\n')).length) := by
  unfold piece
  rw [if_neg (by decide), if_neg (by decide)]
  rfl

theorem piece_blockComment (s : Scanner) (cs : List Char) :
    s.piece '/' ('*' :: cs) =
      match Lexeme.comment? 1 cs with
      | some text => .ok (s.passText ('/' :: '*' :: text))
      | none => .error .unclosedComment := by
  unfold piece
  rw [if_neg (by decide), if_neg (by decide)]
  simp only [Lexeme.comment?]
  cases Lexeme.comment? 1 cs <;> rfl

theorem piece_lexeme {c : Char} {cs : List Char} (hc : c ∉ breaks)
    (ho : Lexeme.opensComment (c :: cs) = false) (s : Scanner) :
    s.piece c cs = (Lexeme.next c cs).map s.lexeme := by
  have hblank : isBlank c = false := by
    simp [breaks] at hc
    simp [isBlank, hc]
  have hline : c ≠ '\n' := by
    rintro rfl
    exact hc (by decide)
  unfold piece
  rw [if_neg (by simp [hblank]), if_neg hline]
  split
  · simp [Lexeme.opensComment] at ho
  · simp [Lexeme.opensComment] at ho
  · cases Lexeme.next c cs <;> rfl

theorem piece_of_forms {span rest cs : List Char} {c : Char} {l : Lexeme}
    (h : Lexeme.Forms span l rest) (hcs : c :: cs = span ++ rest) (s : Scanner) :
    s.piece c cs = .ok (s.lexeme l) := by
  obtain ⟨d, more, rfl, hbreak, ho⟩ := h.first
  have hnext := Lexeme.next_complete hcs h
  obtain ⟨rfl, -⟩ := List.cons.inj hcs
  rw [piece_lexeme hbreak (by rw [hcs, ho]), hnext]
  rfl

/-- With what a piece begins. -/
inductive Begins : Char → List Char → Prop where
  | blank {c : Char} {cs : List Char} : isBlank c → Begins c cs
  | newline {cs : List Char} : Begins '\n' cs
  | lineComment {cs : List Char} : Begins '/' ('/' :: cs)
  | blockComment {cs : List Char} : Begins '/' ('*' :: cs)
  | lexeme {c : Char} {cs : List Char} : c ∉ breaks → Lexeme.opensComment (c :: cs) = false →
      Begins c cs

theorem begins (c : Char) (cs : List Char) : Begins c cs := by
  by_cases hc : c ∈ breaks
  · rcases List.mem_cons.mp hc with rfl | hc
    · exact .newline
    · exact .blank (by simpa [isBlank] using hc)
  · cases ho : Lexeme.opensComment (c :: cs) with
    | false => exact .lexeme hc ho
    | true =>
      unfold Lexeme.opensComment at ho
      split at ho
      · next heq =>
        obtain ⟨rfl, rfl⟩ := List.cons.inj heq
        exact .lineComment
      · next heq =>
        obtain ⟨rfl, rfl⟩ := List.cons.inj heq
        exact .blockComment
      · cases ho

/-- The level of a line behind blanks, if `column` and `level` are those in front of them. -/
def levelBehind (column level : Nat) (rest : List Char) : Except Fault Nat :=
  if column = 1 ∧ rest.takeWhile isIndent ≠ [] ∧ !emptyFrom (rest.dropWhile isIndent) then
    levelOf (rest.takeWhile isIndent)
  else .ok level

theorem blanks_eq (s : Scanner) :
    s.blanks = (levelBehind s.cursor.column s.level s.cursor.rest).map fun level =>
      { s.pass (s.cursor.rest.takeWhile isBlank).length with level } := by
  unfold blanks levelBehind
  simp only
  split
  · cases levelOf (s.cursor.rest.takeWhile isIndent) <;> rfl
  · rfl

theorem blanks_eq_ok {s s' : Scanner} :
    s.blanks = .ok s' ↔ ∃ level, levelBehind s.cursor.column s.level s.cursor.rest = .ok level ∧
      s' = { s.pass (s.cursor.rest.takeWhile isBlank).length with level } := by
  rw [blanks_eq]
  cases levelBehind s.cursor.column s.level s.cursor.rest with
  | error fault => simp [Except.map]
  | ok level => simp [Except.map, eq_comm]

/-- What one piece does. -/
inductive Step (s : Scanner) : Char → List Char → List Token → Scanner → Prop where
  | blanks {c : Char} {cs : List Char} {t : Scanner} : isBlank c → s.blanks = .ok t → Step s c cs [] t
  | newline {cs : List Char} : Step s '\n' cs s.endLine.1 s.endLine.2
  | lineComment {cs : List Char} :
      Step s '/' ('/' :: cs) [] (s.pass (('/' :: '/' :: cs).takeWhile (· ≠ '\n')).length)
  | blockComment {text rest : List Char} : Closes 1 text →
      Step s '/' ('*' :: (text ++ rest)) (s.passText ('/' :: '*' :: text)).1
        (s.passText ('/' :: '*' :: text)).2
  | lexeme {c : Char} {cs span rest : List Char} {l : Lexeme} : c :: cs = span ++ rest →
      Lexeme.Forms span l rest → Step s c cs (s.lexeme l).1 (s.lexeme l).2

theorem step_of_piece {s s' : Scanner} {c : Char} {cs : List Char} {read : List Token}
    (hp : s.piece c cs = .ok (read, s')) : s.Step c cs read s' := by
  cases begins c cs with
  | blank hblank =>
    rw [piece_blank hblank] at hp
    cases hb : s.blanks with
    | error fault => simp [hb, Except.map] at hp
    | ok t =>
      simp only [hb, Except.map, Except.ok.injEq, Prod.mk.injEq] at hp
      obtain ⟨rfl, rfl⟩ := hp
      exact .blanks hblank hb
  | newline =>
    rw [piece_newline] at hp
    simp only [Except.ok.injEq, Prod.ext_iff] at hp
    obtain ⟨rfl, rfl⟩ := hp
    exact .newline
  | lineComment =>
    rw [piece_lineComment] at hp
    cases hp
    exact .lineComment
  | blockComment =>
    rw [piece_blockComment] at hp
    split at hp
    · next text hcomment =>
      simp only [Except.ok.injEq, Prod.ext_iff] at hp
      obtain ⟨rfl, rfl⟩ := hp
      obtain ⟨rest, rfl, hcloses⟩ := comment?_sound hcomment
      exact .blockComment hcloses
    · cases hp
  | lexeme hbreak ho =>
    rw [piece_lexeme hbreak ho] at hp
    cases hl : Lexeme.next c cs with
    | error fault => simp [hl, Except.map] at hp
    | ok l =>
      simp only [hl, Except.map, Except.ok.injEq, Prod.ext_iff] at hp
      obtain ⟨rfl, rfl⟩ := hp
      obtain ⟨span, rest, hcs, hforms⟩ := Lexeme.next_sound ho hl
      exact .lexeme hcs hforms

theorem piece_of_step {s s' : Scanner} {c : Char} {cs : List Char} {read : List Token}
    (h : s.Step c cs read s') : s.piece c cs = .ok (read, s') := by
  cases h with
  | blanks hblank hb =>
    rw [piece_blank hblank, hb]
    rfl
  | newline => exact piece_newline s cs
  | lineComment => exact piece_lineComment s _
  | blockComment hcloses => rw [piece_blockComment, comment?_complete hcloses]
  | lexeme hcs hforms => exact piece_of_forms hforms hcs s

/-! ## All the pieces of a text -/

theorem tokens_of_end {s : Scanner} (h : s.cursor.rest = []) : s.tokens = .ok s.finish := by
  rw [tokens]
  split
  · rfl
  · next heq =>
    rw [h] at heq
    cases heq

theorem tokens_of_piece {s : Scanner} {c : Char} {cs : List Char} (h : s.cursor.rest = c :: cs) :
    s.tokens =
      match s.piece c cs with
      | .error fault => .error ⟨fault, s.place⟩
      | .ok (read, s') => s'.tokens.map (read ++ ·) := by
  rw [tokens]
  split
  · next heq =>
    rw [h] at heq
    cases heq
  · next heq =>
    rw [h] at heq
    obtain ⟨rfl, rfl⟩ := List.cons.inj heq
    split <;> simp_all

/-- The scanner reads pieces one after the other. -/
inductive Run : Scanner → List Token → Scanner → Prop where
  | refl (s : Scanner) : Run s [] s
  | step {s s₁ s' : Scanner} {c : Char} {cs : List Char} {read more : List Token} :
      s.cursor.rest = c :: cs → s.piece c cs = .ok (read, s₁) → Run s₁ more s' →
      Run s (read ++ more) s'

theorem Run.single {s s' : Scanner} {c : Char} {cs : List Char} {read : List Token}
    (hrest : s.cursor.rest = c :: cs) (hp : s.piece c cs = .ok (read, s')) : Run s read s' := by
  have h := Run.step hrest hp (.refl s')
  rwa [List.append_nil] at h

theorem Run.trans {s s₁ s' : Scanner} {read more : List Token} (h : Run s read s₁) (h₁ : Run s₁ more s') :
    Run s (read ++ more) s' := by
  induction h with
  | refl => exact h₁
  | step hrest hp _ ih =>
    rw [List.append_assoc]
    exact .step hrest hp (ih h₁)

theorem Run.tokens {s s' : Scanner} {read : List Token} (h : Run s read s') :
    s.tokens = s'.tokens.map (read ++ ·) := by
  induction h with
  | refl s => cases s.tokens <;> rfl
  | @step s s₁ s' c cs read more hrest hp _ ih =>
    rw [tokens_of_piece hrest, hp]
    simp only [ih]
    cases s'.tokens with
    | error d => rfl
    | ok ts => simp [Except.map]

/-- Reading ends at the end of the text, or in front of a piece that has a fault. -/
theorem exists_run (s : Scanner) : ∃ read s', Run s read s' ∧ (s'.cursor.rest = [] ∨
    ∃ c cs fault, s'.cursor.rest = c :: cs ∧ s'.piece c cs = .error fault) := by
  induction hn : s.cursor.rest.length using Nat.strongRecOn generalizing s with
  | ind n ih =>
    cases hrest : s.cursor.rest with
    | nil => exact ⟨[], s, .refl s, .inl hrest⟩
    | cons c cs =>
      cases hp : s.piece c cs with
      | error fault => exact ⟨[], s, .refl s, .inr ⟨c, cs, fault, hrest, hp⟩⟩
      | ok result =>
        obtain ⟨read, s₁⟩ := result
        obtain ⟨more, s', hrun, hend⟩ := ih _ (hn ▸ piece_lt hrest hp) s₁ rfl
        exact ⟨read ++ more, s', .step hrest hp hrun, hend⟩

theorem tokens_eq_ok {s : Scanner} {ts : List Token} :
    s.tokens = .ok ts ↔
      ∃ read s', Run s read s' ∧ s'.cursor.rest = [] ∧ ts = read ++ s'.finish := by
  constructor
  · intro h
    obtain ⟨read, s', hrun, hend | ⟨c, cs, fault, hrest, hp⟩⟩ := exists_run s
    · rw [hrun.tokens, tokens_of_end hend] at h
      cases h
      exact ⟨read, s', hrun, hend, rfl⟩
    · rw [hrun.tokens, tokens_of_piece hrest, hp] at h
      cases h
  · rintro ⟨read, s', hrun, hend, rfl⟩
    rw [hrun.tokens, tokens_of_end hend]
    rfl

theorem tokens_eq_error {s : Scanner} {d : Diagnostic} :
    s.tokens = .error d ↔ ∃ read s' c cs fault, Run s read s' ∧ s'.cursor.rest = c :: cs ∧
      s'.piece c cs = .error fault ∧ d = ⟨fault, s'.place⟩ := by
  constructor
  · intro h
    obtain ⟨read, s', hrun, hend | ⟨c, cs, fault, hrest, hp⟩⟩ := exists_run s
    · rw [hrun.tokens, tokens_of_end hend] at h
      cases h
    · rw [hrun.tokens, tokens_of_piece hrest, hp] at h
      cases h
      exact ⟨read, s', c, cs, fault, hrun, hrest, hp, rfl⟩
  · rintro ⟨read, s', c, cs, fault, hrun, hrest, hp, rfl⟩
    rw [hrun.tokens, tokens_of_piece hrest, hp]
    rfl

end Scanner

end Offside
