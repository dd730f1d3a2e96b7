import Mathlib.Data.List.ModifyLast
import Offside.Proofs.SourceSpans

/-!
# One text below another

Nothing of a line is left when the next one begins: the tokens of two texts, one below the other, are those
of the two texts, further down for the second.
-/

namespace Offside

set_option autoImplicit false

open Source (Cursor isIndent)

/-! ## Further down -/

/-- The same column, `n` lines further down. -/
def Location.lower (n : Nat) (l : Location) : Location := { l with line := l.line + n }

def Token.lower (n : Nat) (t : Token) : Token := { t with location := t.location.lower n }

def Diagnostic.lower (n : Nat) (d : Diagnostic) : Diagnostic :=
  { d with location := d.location.lower n }

@[simp] theorem Token.lower_zero : Token.lower 0 = id := rfl

/-- The token as it is if a line feed follows. -/
def Token.broken (t : Token) : Token := if t.kind = .endOfStatement then { t with text := "\n" } else t

/-- The tokens of a text as they are if a line feed follows: the text goes on, and its last statement ends
with that line feed. -/
def broken (ts : List Token) : List Token := ts.dropLast.modifyLast Token.broken

namespace Scanner

/-! ## Two scanners in step -/

/-- The scanner `t` stands `n` lines further down than `s`, and its text goes on with `tail` behind that of
`s`. The level of a line that has no word and ends there is of no use to either. -/
structure Follows (n : Nat) (tail : List Char) (s t : Scanner) : Prop where
  file : t.file = s.file
  rest : t.cursor.rest = s.cursor.rest ++ tail
  line : t.cursor.line = s.cursor.line + n
  column : t.cursor.column = s.cursor.column
  written : t.written = s.written
  level : t.level = s.level ∨ s.cursor.rest = [] ∧ s.written = false

section Follows

variable {n : Nat} {tail : List Char} {s s' t : Scanner}

theorem Follows.place (h : Follows n tail s t) : t.place = s.place.lower n := by
  simp only [Scanner.place, Location.lower, h.file, h.line, h.column]

theorem Follows.level_eq (h : Follows n tail s t) (hne : s.cursor.rest ≠ []) : t.level = s.level :=
  h.level.resolve_right fun hend => hne hend.1

theorem Follows.pass (h : Follows n tail s t) {k : Nat} (hk : k ≤ s.cursor.rest.length)
    (hne : s.cursor.rest ≠ []) : Follows n tail (s.pass k) (t.pass k) where
  file := h.file
  rest := by rw [rest_pass, rest_pass, h.rest, List.drop_append_of_le_length hk]
  line := by simpa only [Scanner.pass, Cursor.drop, Cursor.line_advanceN] using h.line
  column := by
    have hk' : k ≤ t.cursor.rest.length := by
      rw [h.rest, List.length_append]
      omega
    simp only [Scanner.pass, Cursor.drop, column_advanceN hk, column_advanceN hk', h.column]
  written := h.written
  level := .inl (h.level_eq hne)

theorem Follows.level_written (h : Follows n tail s t) (hw : s.written = true) :
    t.level = s.level := by
  apply h.level.resolve_right
  rintro ⟨-, hnone⟩
  simp [hw] at hnone

theorem Follows.read_endLine (h : Follows n tail s t) :
    t.endLine.1 = s.endLine.1.map (Token.lower n) := by
  unfold Scanner.endLine
  rw [h.written, h.place]
  cases hw : s.written with
  | false => rfl
  | true =>
    rw [h.level_written hw]
    rfl

theorem line_endLine (s : Scanner) : s.endLine.2.cursor.line = s.cursor.line + 1 := by
  simp [Scanner.endLine, Cursor.newLine, Cursor.skip, Cursor.drop]

theorem Follows.endLine (h : Follows n tail s t) (hne : s.cursor.rest ≠ []) :
    Follows n tail s.endLine.2 t.endLine.2 where
  file := h.file
  rest := by rw [rest_endLine, rest_endLine, h.rest, List.tail_append_of_ne_nil hne]
  line := by
    rw [line_endLine, line_endLine, h.line]
    omega
  column := rfl
  written := rfl
  level := .inl rfl

theorem Follows.passText {text rest : List Char} (h : Follows n tail s t)
    (hrest : s.cursor.rest = text ++ rest) :
    (t.passText text).1 = (s.passText text).1.map (Token.lower n) ∧
      Follows n tail (s.passText text).2 (t.passText text).2 := by
  induction text generalizing s t with
  | nil => exact ⟨rfl, h⟩
  | cons c text ih =>
    have hne : s.cursor.rest ≠ [] := by simp [hrest]
    by_cases hc : c = '\n'
    · simp only [Scanner.passText, hc, if_true]
      obtain ⟨hmore, hpass⟩ := ih (h.endLine hne) (by simp [hrest])
      exact ⟨by rw [h.read_endLine, hmore, List.map_append], hpass⟩
    · simp only [Scanner.passText, hc, if_false, List.nil_append]
      have hone : 1 ≤ s.cursor.rest.length := by simp [hrest]
      exact ih (h.pass hone hne) (by simp [hrest])

theorem Follows.lexeme {l : Lexeme} (h : Follows n tail s t) (hl : l.size ≤ s.cursor.rest.length)
    (hne : s.cursor.rest ≠ []) :
    (t.lexeme l).1 = (s.lexeme l).1.map (Token.lower n) ∧
      Follows n tail (s.lexeme l).2 (t.lexeme l).2 := by
  have hpass := h.pass hl hne
  constructor
  · simp only [Scanner.lexeme, h.place, h.level_eq hne]
    rfl
  · exact ⟨hpass.file, hpass.rest, hpass.line, hpass.column, rfl, .inl (h.level_eq hne)⟩

/-! ## Indentation in front of more text -/

theorem emptyFrom_append {rest : List Char} (ht : Stops (· ≠ '\n') tail) (hr : rest ≠ ['\r']) :
    emptyFrom (rest ++ tail) = emptyFrom rest := by
  rcases tail with _ | ⟨c, tail⟩
  · rw [List.append_nil]
  · obtain rfl : c = '\n' := by simpa [stops_cons] using ht
    rcases rest with _ | ⟨c, _ | ⟨d, rest⟩⟩
    · rfl
    · unfold emptyFrom
      split <;> simp_all
    · unfold emptyFrom
      split <;> simp_all

/-- A carriage return at the end of a text is not yet a line break, but it is one with a line feed behind
it; only then may the level be another. -/
theorem levelBehind_append {column level found : Nat} {rest : List Char}
    (ht : Stops (· ≠ '\n') tail) (h : levelBehind column level rest = .ok found) :
    ∃ found', levelBehind column level (rest ++ tail) = .ok found' ∧
      (found' = found ∨ rest.dropWhile isBlank = [] ∧ column = 1) := by
  have hindent : Stops isIndent tail := ht.of_newline (by decide)
  have htake := takeWhile_append_of_stops hindent rest
  have hdrop := dropWhile_append_of_stops hindent rest
  by_cases hreturn : rest.dropWhile isIndent = ['\r']
  · by_cases hcolumn : column = 1
    · rcases tail with _ | ⟨c, tail⟩
      · exact ⟨found, by rwa [List.append_nil], .inl rfl⟩
      · obtain rfl : c = '\n' := by simpa [stops_cons] using ht
        refine ⟨level, ?_, .inr ⟨?_, hcolumn⟩⟩
        · unfold levelBehind
          rw [hdrop, hreturn, if_neg]
          rintro ⟨-, -, hempty⟩
          simp [emptyFrom] at hempty
        · have hblank : ∀ c ∈ rest.takeWhile isIndent, isBlank c := by
            intro c hc
            have hindent := mem_takeWhile hc
            simp only [isIndent, Bool.or_eq_true, decide_eq_true_eq] at hindent
            rcases hindent with rfl | rfl <;> decide
          rw [← List.takeWhile_append_dropWhile (p := isIndent) (l := rest), hreturn,
            List.dropWhile_append_of_pos hblank]
          decide
    · have hlevel : ∀ r, levelBehind column level r = .ok level := by
        intro r
        unfold levelBehind
        exact if_neg fun hif => hcolumn hif.1
      rw [hlevel] at h
      cases h
      exact ⟨level, hlevel _, .inl rfl⟩
  · refine ⟨found, ?_, .inl rfl⟩
    unfold levelBehind at h ⊢
    rwa [htake, hdrop, emptyFrom_append ht hreturn]

/-! ## Pieces in front of more text -/

theorem Follows.blanks (h : Follows n tail s t) (hs : s.Steady) (ht : Stops (· ≠ '\n') tail)
    (hne : s.cursor.rest ≠ []) (hb : s.blanks = .ok s') :
    ∃ t', t.blanks = .ok t' ∧ Follows n tail s' t' := by
  obtain ⟨found, hfound, rfl⟩ := blanks_eq_ok.mp hb
  obtain ⟨found', hfound', hlevel⟩ := levelBehind_append ht hfound
  have hblank : Stops isBlank tail := ht.of_newline (by decide)
  have hle := (List.takeWhile_sublist isBlank (l := s.cursor.rest)).length_le
  have hpass := h.pass hle hne
  refine ⟨_, blanks_eq_ok.mpr ⟨found', ?_, rfl⟩, ?_⟩
  · rwa [h.rest, h.column, h.level_eq hne]
  · rw [h.rest, takeWhile_append_of_stops hblank]
    refine ⟨hpass.file, hpass.rest, hpass.line, hpass.column, hpass.written, ?_⟩
    apply hlevel.imp_right
    rintro ⟨hend, hcolumn⟩
    refine ⟨?_, Bool.eq_false_iff.mpr fun hw => hs.column_ne hw hcolumn⟩
    exact (rest_pass _ s).trans ((drop_length_takeWhile _ _).trans hend)

/-- A piece of a text is one as well if the text goes on at a line feed. -/
theorem Follows.step {c : Char} {cs : List Char} {read : List Token} (h : Follows n tail s t)
    (hs : s.Steady) (ht : Stops (· ≠ '\n') tail) (hrest : s.cursor.rest = c :: cs)
    (hstep : s.Step c cs read s') :
    ∃ t', t.Step c (cs ++ tail) (read.map (Token.lower n)) t' ∧ Follows n tail s' t' := by
  have hne : s.cursor.rest ≠ [] := by simp [hrest]
  cases hstep with
  | blanks hblank hb =>
    obtain ⟨t', ht', hfollows⟩ := h.blanks hs ht hne hb
    exact ⟨t', .blanks hblank ht', hfollows⟩
  | newline =>
    refine ⟨t.endLine.2, ?_, h.endLine hne⟩
    rw [← h.read_endLine]
    exact .newline
  | @lineComment cs =>
    have htake := takeWhile_append_of_stops ht ('/' :: '/' :: cs)
    have hle := (List.takeWhile_sublist (· ≠ '\n') (l := '/' :: '/' :: cs)).length_le
    refine ⟨_, @Step.lineComment t (cs ++ tail), ?_⟩
    simp only [List.cons_append] at htake
    rw [htake]
    exact h.pass (by rwa [hrest]) hne
  | @blockComment text rest hcloses =>
    have hcut : s.cursor.rest = '/' :: '*' :: text ++ rest := hrest
    obtain ⟨hread, hpass⟩ := h.passText hcut
    refine ⟨(t.passText ('/' :: '*' :: text)).2, ?_, hpass⟩
    rw [← hread, List.cons_append, List.append_assoc]
    exact .blockComment hcloses
  | @lexeme _ _ span rest l hcs hforms =>
    have hbreaks : Breaks tail := by
      intro d hd
      obtain rfl : d = '\n' := by simpa using ht d hd
      decide
    have hle : l.size ≤ s.cursor.rest.length := by
      rw [hforms.size_eq, hrest, hcs, List.length_append]
      omega
    have hcs' : c :: (cs ++ tail) = span ++ (rest ++ tail) := by
      rw [← List.append_assoc, ← hcs, List.cons_append]
    obtain ⟨hread, hpass⟩ := h.lexeme hle hne
    refine ⟨(t.lexeme l).2, ?_, hpass⟩
    rw [← hread]
    exact .lexeme hcs' (hforms.replace (replaces_append hbreaks rest))

/-- Reading goes the same way if the text goes on at a line feed. -/
theorem Follows.run {read : List Token} (hrun : Run s read s') (hs : s.Steady)
    (h : Follows n tail s t) (ht : Stops (· ≠ '\n') tail) :
    ∃ t', Run t (read.map (Token.lower n)) t' ∧ s'.Steady ∧ Follows n tail s' t' := by
  induction hrun generalizing t with
  | refl s => exact ⟨t, .refl t, hs, h⟩
  | @step s s₁ s' c cs read more hrest hp _ ih =>
    obtain ⟨t₁, hstep, h₁⟩ := h.step hs ht hrest (step_of_piece hp)
    obtain ⟨t', hrun', hs', h'⟩ := ih (reads_piece hrest hs hp).steady h₁
    refine ⟨t', ?_, hs', h'⟩
    rw [List.map_append]
    exact .step (h.rest.trans (by rw [hrest]; rfl)) (piece_of_step hstep) hrun'

end Follows

/-! ## The same text further down -/

section Lower

variable {n : Nat} {s t : Scanner}

theorem Follows.rest_eq (h : Follows n [] s t) : t.cursor.rest = s.cursor.rest := by
  rw [h.rest, List.append_nil]

theorem Follows.piece_error {c : Char} {cs : List Char} {fault : Fault} (h : Follows n [] s t)
    (hrest : s.cursor.rest = c :: cs) (hp : s.piece c cs = .error fault) :
    t.piece c cs = .error fault := by
  have hlevel := h.level_eq (by simp [hrest])
  cases begins c cs with
  | blank hblank =>
    rw [piece_blank hblank, blanks_eq] at hp ⊢
    rw [h.rest_eq, h.column, hlevel]
    cases hl : levelBehind s.cursor.column s.level s.cursor.rest with
    | ok level => simp [hl, Except.map] at hp
    | error fault' =>
      simp only [hl, Except.map, Except.error.injEq] at hp
      simp [Except.map, hp]
  | newline => simp [piece_newline] at hp
  | lineComment => simp [piece_lineComment] at hp
  | @blockComment cs =>
    rw [piece_blockComment] at hp ⊢
    split at hp
    · cases hp
    · exact hp
  | lexeme hbreak ho =>
    rw [piece_lexeme hbreak ho] at hp ⊢
    cases hl : Lexeme.next c cs with
    | ok l => simp [hl, Except.map] at hp
    | error fault' => simpa [hl, Except.map] using hp

theorem Follows.finish (h : Follows n [] s t) : t.finish = s.finish.map (Token.lower n) := by
  have hend : ∀ l : Location, [Token.endAt (l.lower n)] = [Token.endAt l].map (Token.lower n) :=
    fun _ => rfl
  unfold Scanner.finish
  rw [h.written, h.place, hend]
  cases hw : s.written with
  | false => rfl
  | true =>
    rw [h.level_written hw]
    rfl

/-- A text further down has its tokens further down, or its fault. -/
theorem Follows.tokens (h : Follows n [] s t) (hs : s.Steady) :
    t.tokens = (s.tokens.map (List.map (Token.lower n))).mapError (Diagnostic.lower n) := by
  obtain ⟨read, s', hrun, hend | ⟨c, cs, fault, hrest, hp⟩⟩ := exists_run s
  · obtain ⟨t', hrun', -, h'⟩ := h.run hrun hs (stops_nil _)
    rw [hrun.tokens, hrun'.tokens, tokens_of_end hend, tokens_of_end (h'.rest_eq.trans hend),
      h'.finish]
    simp [Except.map, Except.mapError]
  · obtain ⟨t', hrun', -, h'⟩ := h.run hrun hs (stops_nil _)
    rw [hrun.tokens, hrun'.tokens, tokens_of_piece hrest, hp,
      tokens_of_piece (h'.rest_eq.trans hrest), h'.piece_error hrest hp]
    simp only [h'.place]
    rfl

end Lower

/-! ## The line feed in between -/

section Broken

variable {s s' : Scanner} {read : List Token}

/-- Only at the end of the text does a statement end with no line feed. -/
theorem broken_run (hrun : Run s read s') : read.map Token.broken = read := by
  have hfix : ∀ t ∈ read, t.broken = t := by
    intro t ht
    cases isRead_run hrun t ht with
    | stop hstop =>
      obtain ⟨place, level, rfl⟩ := hstop
      rfl
    | @word span rest l place level hforms => exact if_neg hforms.sound.kind.1
  calc read.map Token.broken = read.map id := List.map_congr_left hfix
    _ = read := List.map_id read

theorem broken_finish (h : read.map Token.broken = read) (s : Scanner) :
    broken (read ++ s.finish) = read ++ s.endLine.1 := by
  unfold broken finish endLine
  cases s.written with
  | true =>
    simp only [if_true, ← List.append_assoc, List.dropLast_concat, List.modifyLast_concat]
    rfl
  | false =>
    simp only [Bool.false_eq_true, if_false, List.nil_append, List.dropLast_concat,
      List.append_nil]
    rcases List.eq_nil_or_concat read with rfl | ⟨more, t, rfl⟩
    · rfl
    · rw [List.concat_eq_append] at h ⊢
      rw [List.map_append, List.map_singleton] at h
      have ht : [t.broken] = [t] := List.append_inj_right' h rfl
      rw [List.modifyLast_concat, ht]

end Broken

end Scanner

/-- Two texts, one below the other: what stands below is read as if it stood alone, further down. -/
theorem tokenize_below {above file : String} {ts : List Token} (h : tokenize above file = .ok ts)
    (below : String) :
    tokenize (above ++ "\n" ++ below) file =
      ((tokenize below file).map fun us =>
        broken ts ++ us.map (Token.lower ((above ++ "\n").toList.count '\n'))).mapError
          (Diagnostic.lower ((above ++ "\n").toList.count '\n')) := by
  obtain ⟨read, s, hrun, hend, rfl⟩ := Scanner.tokens_eq_ok.mp h
  have hjoined : (above ++ "\n" ++ below).toList = above.toList ++ '\n' :: below.toList := by simp
  have hcount : (above ++ "\n").toList.count '\n' = above.toList.count '\n' + 1 := by simp
  obtain ⟨text, rest, habove, hat, -⟩ :=
    Scanner.covers_run s.finish hrun (Scanner.at_start file above.toList)
  obtain rfl : [] = rest := hend.symm.trans hat.rest
  rw [List.append_nil] at habove
  have hfollows : (Scanner.start file above.toList).Follows 0 ('\n' :: below.toList)
      (Scanner.start file (above ++ "\n" ++ below).toList) :=
    ⟨rfl, hjoined, rfl, rfl, rfl, .inl rfl⟩
  obtain ⟨t, hrun', -, hfollows⟩ :=
    hfollows.run hrun (Scanner.steady_start ..) (stops_cons.mpr (by decide))
  have hrest : t.cursor.rest = '\n' :: below.toList := by rw [hfollows.rest, hend]; rfl
  have hread : t.endLine.1 = s.endLine.1 := by
    rw [hfollows.read_endLine, Token.lower_zero, List.map_id]
  have hline : s.cursor.line = 1 + above.toList.count '\n' := by
    rw [habove]
    exact congrArg Location.line hat.place
  have hbelow : (Scanner.start file below.toList).Follows
      (above.toList.count '\n' + 1) [] t.endLine.2 := by
    refine ⟨?_, ?_, ?_, rfl, rfl, .inl rfl⟩
    · exact hfollows.file.trans (congrArg Location.file hat.place)
    · rw [Scanner.rest_endLine, hrest, List.append_nil]
      rfl
    · rw [Scanner.line_endLine, hfollows.line, hline]
      simp only [Scanner.start, Cursor.ofText]
      omega
  rw [hcount]
  unfold tokenize
  rw [Scanner.broken_finish (Scanner.broken_run hrun), hrun'.tokens,
    Scanner.tokens_of_piece hrest, Scanner.piece_newline]
  simp only [hbelow.tokens (Scanner.steady_start ..), hread, Token.lower_zero, List.map_id]
  cases (Scanner.start file below.toList).tokens with
  | error d => rfl
  | ok us => simp [Except.map, Except.mapError]

/-- A fault in the second text, behind a comment and a carriage return. -/
theorem tokenize_below_indentation :
    ∃ ts, tokenize "a // b\n    \r" "" = .ok ts ∧
      tokenize ("a // b\n    \r" ++ "\n" ++ "c\n   d") "" =
        ((tokenize "c\n   d" "").map fun us => broken ts ++ us.map (Token.lower 2)).mapError
          (Diagnostic.lower 2) ∧
      tokenize "c\n   d" "" = .error ⟨.badIndentation 3, ⟨"", 2, 1⟩⟩ := by
  have hok : ((tokenize "a // b\n    \r" "").map List.length).toOption = some 3 := by decide +kernel
  cases hs : tokenize "a // b\n    \r" "" with
  | error d => simp [hs, Except.map, Except.toOption] at hok
  | ok ts => exact ⟨ts, rfl, tokenize_below hs "c\n   d", by decide +kernel⟩

end Offside
