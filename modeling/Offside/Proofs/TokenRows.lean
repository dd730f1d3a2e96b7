import Offside.Proofs.Execution
import Offside.Proofs.SourceSpans

/-!
# Rows of tokens

The tokens of a text stand in rows, each of which is the words of one source line and the end of their
statement. All of a row has one level, and what is further behind in the list of rows is further down in the
text. Behind the last row stands the end of the file.
-/

namespace Offside

set_option autoImplicit false

/-- The words of a source line and the end of their statement. -/
structure IsRow (number level : Nat) (row : List Token) : Prop where
  shape : ∃ words stop, row = words ++ [stop] ∧ words ≠ [] ∧
    (∀ t ∈ words, t.kind ≠ .endOfStatement ∧ t.kind ≠ .endOfFile) ∧ stop.kind = .endOfStatement
  number : ∀ t ∈ row, t.location.line = number
  level : ∀ t ∈ row, t.level = level

/-- Every token of the one is further up than every token of the other. -/
def Above (above below : List Token) : Prop :=
  ∀ t ∈ above, ∀ u ∈ below, t.location.line < u.location.line

/-- Rows of lines in front of the line `bound`, each further down than the one in front of it. -/
structure Stacked (bound : Nat) (rows : List (List Token)) : Prop where
  isRow : ∀ row ∈ rows, ∃ number level, number < bound ∧ IsRow number level row
  above : rows.Pairwise Above

theorem Stacked.mono {bound bound' : Nat} {rows : List (List Token)} (h : Stacked bound rows)
    (hle : bound ≤ bound') : Stacked bound' rows := by
  refine ⟨fun row hmem => ?_, h.above⟩
  obtain ⟨number, level, hlt, hrow⟩ := h.isRow row hmem
  exact ⟨number, level, Nat.lt_of_lt_of_le hlt hle, hrow⟩

theorem Stacked.concat {number level : Nat} {rows : List (List Token)} {row : List Token}
    (h : Stacked number rows) (hrow : IsRow number level row) : Stacked (number + 1) (rows ++ [row]) where
  isRow := by
    refine List.forall_mem_append.mpr ⟨(h.mono (Nat.le_succ number)).isRow, ?_⟩
    exact List.forall_mem_singleton.mpr ⟨number, level, Nat.lt_succ_self number, hrow⟩
  above := by
    refine List.pairwise_append.mpr ⟨h.above, List.pairwise_singleton _ _, fun above hmem => ?_⟩
    refine List.forall_mem_singleton.mpr fun t ht u hu => ?_
    obtain ⟨further, _, hlt, hup⟩ := h.isRow above hmem
    rw [hup.number t ht, hrow.number u hu]
    exact hlt

/-- The type and the keyword are those of the kind. -/
structure Token.Tagged (t : Token) : Prop where
  type_iff : t.type.isSome ↔ t.kind = .literal
  keyword_iff : t.keyword.isSome ↔ t.kind = .keyword

/-! ## Tags -/

theorem Lexeme.type_iff_word (c : Char) (cs : List Char) :
    (word c cs).type.isSome ↔ (word c cs).kind = .literal := by
  unfold word
  simp only
  split
  · simp
  · split <;> simp

theorem Lexeme.Forms.type_iff {span rest : List Char} {l : Lexeme} (h : Forms span l rest) :
    l.type.isSome ↔ l.kind = .literal := by
  cases h with
  | word => exact type_iff_word _ _
  | delimiter => simp [Lexeme.delimiter]
  | _ => simp

theorem Token.tagged_plain {kind : Kind} (h : kind ≠ .literal ∧ kind ≠ .keyword) (text : String)
    (place : Location) (level : Nat) : (plain kind text place level).Tagged :=
  ⟨by simp [plain, h.1], by simp [plain, h.2]⟩

theorem Token.IsRead.tagged {t : Token} (h : t.IsRead) : t.Tagged := by
  cases h with
  | stop hstop =>
    obtain ⟨place, level, rfl⟩ := hstop
    exact tagged_plain (by decide) ..
  | word hforms => exact ⟨hforms.type_iff, hforms.sound.keyword_iff⟩

namespace Scanner

theorem tagged_finish (s : Scanner) : ∀ t ∈ s.finish, t.Tagged := by
  have hend : (Token.endAt s.place).Tagged := Token.tagged_plain (by decide) ..
  unfold finish
  cases s.written with
  | false => exact List.forall_mem_singleton.mpr hend
  | true =>
    exact List.forall_mem_cons.mpr
      ⟨Token.tagged_plain (by decide) .., List.forall_mem_singleton.mpr hend⟩

/-! ## What has been read -/

/-- Whole rows of lines further up, and the words of the line that the scanner is in. -/
structure Collects (rows : List (List Token)) (words : List Token) (s : Scanner) : Prop where
  steady : s.Steady
  rows : Stacked s.cursor.line rows
  isWord : ∀ t ∈ words, t.kind ≠ .endOfStatement ∧ t.kind ≠ .endOfFile
  number : ∀ t ∈ words, t.location.line = s.cursor.line
  level : ∀ t ∈ words, t.level = s.level
  written : s.written ↔ words ≠ []

variable {rows : List (List Token)} {words : List Token} {s s' : Scanner}

theorem collects_start (file : String) (text : List Char) : (start file text).Collects [] [] where
  steady := steady_start file text
  rows := ⟨List.forall_mem_nil _, .nil⟩
  isWord := List.forall_mem_nil _
  number := List.forall_mem_nil _
  level := List.forall_mem_nil _
  written := by simp [start]

namespace Collects

theorem pass (h : s.Collects rows words) (n : Nat) : (s.pass n).Collects rows words := by
  have hline : (s.pass n).cursor.line = s.cursor.line := Source.Cursor.line_advanceN n s.cursor
  exact ⟨(reads_pass n h.steady).steady, hline.symm ▸ h.rows, h.isWord, hline.symm ▸ h.number, h.level,
    h.written⟩

/-- A line without words has no level yet. -/
theorem of_blanks (h : s.Collects rows words) (hb : s.blanks = .ok s') : s'.Collects rows words := by
  obtain ⟨level, hlevel, rfl⟩ := blanks_eq_ok.mp hb
  have hpass := h.pass (s.cursor.rest.takeWhile isBlank).length
  refine ⟨(reads_blanks h.steady hb).steady, hpass.rows, h.isWord, hpass.number, ?_, h.written⟩
  intro t ht
  unfold levelBehind at hlevel
  split at hlevel
  · next hif =>
    have hwritten : s.written := h.written.mpr (List.ne_nil_of_mem ht)
    exact absurd hif.1 (h.steady.column_ne hwritten)
  · cases hlevel
    exact h.level t ht

theorem lexeme (h : s.Collects rows words) {l : Lexeme} (hl : l.Sound) (hrest : s.cursor.rest ≠ []) :
    (s.lexeme l).2.Collects rows (words ++ (s.lexeme l).1) := by
  have hpass := h.pass l.size
  refine ⟨(reads_lexeme hl h.steady hrest).steady, hpass.rows, ?_, ?_, ?_, ?_⟩
  · exact List.forall_mem_append.mpr ⟨h.isWord, List.forall_mem_singleton.mpr hl.kind⟩
  · refine List.forall_mem_append.mpr ⟨hpass.number, List.forall_mem_singleton.mpr ?_⟩
    exact (Source.Cursor.line_advanceN l.size s.cursor).symm
  · exact List.forall_mem_append.mpr ⟨h.level, List.forall_mem_singleton.mpr rfl⟩
  · simp [Scanner.lexeme]

/-- Without a word there is nothing to end. -/
theorem words_eq_nil (h : s.Collects rows words) (hw : s.written = false) : words = [] := by
  have hwritten := h.written
  simpa [hw] using hwritten

/-- The end of a statement makes a row of the words of its line. -/
theorem isRow (h : s.Collects rows words) (hw : s.written) (text : String) :
    IsRow s.cursor.line s.level (words ++ [.plain .endOfStatement text s.place s.level]) where
  shape := ⟨words, _, rfl, h.written.mp hw, h.isWord, rfl⟩
  number := List.forall_mem_append.mpr ⟨h.number, List.forall_mem_singleton.mpr rfl⟩
  level := List.forall_mem_append.mpr ⟨h.level, List.forall_mem_singleton.mpr rfl⟩

end Collects

/-- Rows, and the words of the line that the scanner is in. -/
def HasRead (read : List Token) (s : Scanner) : Prop :=
  ∃ (rows : List (List Token)) (words : List Token), read = rows.flatten ++ words ∧ s.Collects rows words

theorem hasRead_start (file : String) (text : List Char) : (start file text).HasRead [] :=
  ⟨[], [], rfl, collects_start file text⟩

namespace HasRead

variable {read more : List Token}

theorem pass (h : s.HasRead read) (n : Nat) : (s.pass n).HasRead read := by
  obtain ⟨rows, words, hread, hcollects⟩ := h
  exact ⟨rows, words, hread, hcollects.pass n⟩

theorem endLine (h : s.HasRead read) : s.endLine.2.HasRead (read ++ s.endLine.1) := by
  obtain ⟨rows, words, rfl, h⟩ := h
  have hcollects {rows' : List (List Token)} (hrows : Stacked (s.cursor.line + 1) rows') :
      s.endLine.2.Collects rows' [] := by
    have hline : s.endLine.2.cursor.line = s.cursor.line + 1 := by
      simp [Scanner.endLine, Source.Cursor.newLine, Source.Cursor.skip, Source.Cursor.drop]
    exact ⟨(reads_endLine s).steady, hline ▸ hrows, List.forall_mem_nil _, List.forall_mem_nil _,
      List.forall_mem_nil _, by simp [Scanner.endLine]⟩
  cases hw : s.written with
  | false =>
    exact ⟨rows, [], by simp [h.words_eq_nil hw, Scanner.endLine, hw],
      hcollects (h.rows.mono (Nat.le_succ _))⟩
  | true => exact ⟨_, [], by simp [Scanner.endLine, hw], hcollects (h.rows.concat (h.isRow hw "\n"))⟩

theorem passText (h : s.HasRead read) (text : List Char) :
    (s.passText text).2.HasRead (read ++ (s.passText text).1) := by
  induction text generalizing s read with
  | nil => rwa [Scanner.passText, List.append_nil]
  | cons c text ih =>
    by_cases hc : c = '\n'
    · simp only [Scanner.passText, hc, if_true, ← List.append_assoc]
      exact ih h.endLine
    · simp only [Scanner.passText, hc, if_false, List.nil_append]
      exact ih (h.pass 1)

theorem piece (h : s.HasRead read) {c : Char} {cs : List Char} (hrest : s.cursor.rest = c :: cs)
    (hp : s.piece c cs = .ok (more, s')) : s'.HasRead (read ++ more) := by
  cases step_of_piece hp with
  | blanks _ hb =>
    obtain ⟨rows, words, rfl, hcollects⟩ := h
    exact ⟨rows, words, List.append_nil _, hcollects.of_blanks hb⟩
  | newline => exact h.endLine
  | lineComment =>
    rw [List.append_nil]
    exact h.pass _
  | blockComment => exact h.passText _
  | lexeme _ hforms =>
    obtain ⟨rows, words, rfl, hcollects⟩ := h
    exact ⟨rows, _, List.append_assoc .., hcollects.lexeme hforms.sound (by simp [hrest])⟩

theorem run (h : s.HasRead read) (hrun : Run s more s') : s'.HasRead (read ++ more) := by
  induction hrun generalizing read with
  | refl => rwa [List.append_nil]
  | step hrest hp _ ih =>
    rw [← List.append_assoc]
    exact ih (h.piece hrest hp)

/-- In a line that has no word yet, all that has been read stands further up. -/
theorem line_lt (h : s.HasRead read) (hw : s.written = false) :
    ∀ t ∈ read, t.location.line < s.cursor.line := by
  obtain ⟨rows, words, rfl, h⟩ := h
  rw [h.words_eq_nil hw, List.append_nil]
  intro t ht
  obtain ⟨row, hmem, ht⟩ := List.mem_flatten.mp ht
  obtain ⟨number, _, hlt, hrow⟩ := h.rows.isRow row hmem
  rw [hrow.number t ht]
  exact hlt

/-- The end of the text ends the last line as a line feed does. -/
theorem finish (h : s.HasRead read) :
    ∃ rows : List (List Token), read ++ s.finish = rows.flatten ++ [.endAt s.place] ∧
      Stacked (s.cursor.line + 1) rows := by
  obtain ⟨rows, words, rfl, h⟩ := h
  cases hw : s.written with
  | false =>
    exact ⟨rows, by simp [h.words_eq_nil hw, Scanner.finish, hw], h.rows.mono (Nat.le_succ _)⟩
  | true => exact ⟨_, by simp [Scanner.finish, hw], h.rows.concat (h.isRow hw "")⟩

end HasRead

end Scanner

/-- Tokens are rows of one line and one level each, further and further down, and the end of the file. -/
theorem tokenize_rows {source file : String} {ts : List Token} (h : tokenize source file = .ok ts) :
    ∃ (rows : List (List Token)) (stop : Token), ts = rows.flatten ++ [stop] ∧
      stop.kind = .endOfFile ∧ stop.level = 0 ∧ (∀ row ∈ rows, ∃ number level, IsRow number level row) ∧
      rows.Pairwise Above ∧ ∀ t ∈ ts, t.Tagged := by
  obtain ⟨read, s, hrun, -, rfl⟩ := Scanner.tokens_eq_ok.mp h
  obtain ⟨rows, hrows, hstacked⟩ := ((Scanner.hasRead_start file source.toList).run hrun).finish
  refine ⟨rows, .endAt s.place, hrows, rfl, rfl, fun row hmem => ?_, hstacked.above, ?_⟩
  · obtain ⟨number, level, -, hrow⟩ := hstacked.isRow row hmem
    exact ⟨number, level, hrow⟩
  · exact List.forall_mem_append.mpr
      ⟨fun t ht => (Scanner.isRead_run hrun t ht).tagged, s.tagged_finish⟩

/-- A comment has the end of a line in it, and the last line has none. -/
theorem tokenize_rows_comment :
    ∃ ts, tokenize "a 1 /* b\n */ c\n\n\tif" "" = .ok ts ∧
      ts.map (fun t => (t.location.line, t.level, t.kind)) =
        [(1, 0, .identifier), (1, 0, .literal), (1, 0, .endOfStatement), (2, 0, .identifier),
          (2, 0, .endOfStatement), (4, 1, .keyword), (4, 1, .endOfStatement), (4, 0, .endOfFile)] ∧
      ∃ (rows : List (List Token)) (stop : Token), ts = rows.flatten ++ [stop] ∧
        stop.kind = .endOfFile ∧ stop.level = 0 ∧
        (∀ row ∈ rows, ∃ number level, IsRow number level row) ∧ rows.Pairwise Above ∧
        ∀ t ∈ ts, t.Tagged := by
  have hok : ((tokenize "a 1 /* b\n */ c\n\n\tif" "").map fun ts =>
      ts.map fun t => (t.location.line, t.level, t.kind)).toOption =
        some [(1, 0, .identifier), (1, 0, .literal), (1, 0, .endOfStatement), (2, 0, .identifier),
          (2, 0, .endOfStatement), (4, 1, .keyword), (4, 1, .endOfStatement), (4, 0, .endOfFile)] := by
    decide +kernel
  obtain ⟨ts, hts, hmap⟩ := Execution.exists_ok_of_map hok
  exact ⟨ts, hts, hmap, tokenize_rows hts⟩

end Offside
