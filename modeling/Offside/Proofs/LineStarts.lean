import Offside.Proofs.LineComposition
import Offside.Proofs.ScanFaults
import Offside.Proofs.TextLines
import Offside.Proofs.TextPieces
import Offside.Proofs.TokenRows

/-!
# Where a line begins

What a scanner does with the text above a line does not depend on the line, nor on what stands below it: it
is inside of a comment where the line begins, or it has stopped at a fault further up, or it begins the line
with nothing left of what is above.
-/

namespace Offside

set_option autoImplicit false

open Source (isIndent)

/-! ## Faults in front of a line feed -/

namespace Scanner

theorem Closes.eq_append {depth : Nat} {text : List Char} (h : Closes depth text) :
    ∃ inner, text = inner ++ ['*', '/'] := by
  induction h with
  | last => exact ⟨[], rfl⟩
  | @close _ _ _ ih =>
    obtain ⟨inner, rfl⟩ := ih
    exact ⟨'*' :: '/' :: inner, rfl⟩
  | @opens _ _ _ ih =>
    obtain ⟨inner, rfl⟩ := ih
    exact ⟨'/' :: '*' :: inner, rfl⟩
  | @other _ c _ _ _ _ ih =>
    obtain ⟨inner, rfl⟩ := ih
    exact ⟨c :: inner, rfl⟩

end Scanner

theorem InComment.feed {text : List Char} (h : InComment text) : InComment (text ++ ['\n']) := by
  obtain ⟨before, inner, rfl, hparted, hopen⟩ := h
  refine ⟨before, inner ++ ['\n'], by simp, ?_, fun closed hclosed hcloses => ?_⟩
  · exact hparted.extend (List.cons_ne_nil _ _) ['\n']
  · rcases List.prefix_concat_iff.mp hclosed with rfl | hclosed
    · obtain ⟨more, hmore⟩ := hcloses.eq_append
      have hlast := congrArg List.getLast? hmore
      simp at hlast
    · exact hopen closed hclosed hcloses

theorem stops_feed {p : Char → Bool} (hp : p '\n' = false) (below : List Char) :
    Stops p ('\n' :: below) :=
  stops_cons.mpr hp

/-- A line feed makes bad indentation harmless only behind a carriage return. -/
theorem Misindented.feed {text : List Char} {fault : Fault} (h : Misindented text fault)
    (hreturn : text.dropWhile isIndent ≠ ['\r']) (below : List Char) :
    Misindented (text ++ '\n' :: below) fault := by
  have hstops := stops_feed (p := isIndent) (by decide) below
  refine ⟨?_, ?_⟩
  · rw [takeWhile_append_of_stops hstops]
    exact h.misindents
  · rw [dropWhile_append_of_stops hstops, ← Scanner.emptyFrom_iff,
      Scanner.emptyFrom_append (stops_feed (by decide) below) hreturn, Scanner.emptyFrom_iff]
    exact h.goesOn

namespace Scanner

variable {s s' : Scanner} {file : String} {above before below rest text : List Char}

/-! ## Nothing is left of the line above -/

/-- The scanner begins the line behind `above`. -/
structure AtLine (s : Scanner) (file : String) (above rest : List Char) : Prop
    extends s.At file above rest where
  level : s.level = 0
  written : s.written = false

theorem atLine_start (file : String) (source : List Char) : (start file source).AtLine file [] source :=
  ⟨at_start file source, rfl, rfl⟩

theorem At.atLine (h : s.At file before ('\n' :: rest)) :
    s.endLine.2.AtLine file (before ++ ['\n']) rest :=
  ⟨h.endLine, rfl, rfl⟩

theorem At.line (h : s.At file before rest) : s.cursor.line = 1 + before.count '\n' :=
  congrArg Location.line h.place

theorem At.column (h : s.At file before rest) : s.cursor.column = (placeAfter file before).column :=
  congrArg Location.column h.place

theorem AtLine.column (h : s.AtLine file above rest) (habove : StartsLine above) : s.cursor.column = 1 := by
  rw [h.toAt.column, habove.placeAfter]

/-- A line that is badly indented is not read. -/
theorem At.tokens_of_misindented {fault : Fault} (h : s.At file before rest) (hcolumn : s.cursor.column = 1)
    (hmis : Misindented rest fault) : s.tokens = .error ⟨fault, placeAfter file before⟩ := by
  cases hcs : rest with
  | nil =>
    rw [hcs] at hmis
    exact absurd rfl hmis.misindents.ne_nil
  | cons c cs =>
    rw [hcs] at hmis
    have hrest : s.cursor.rest = c :: cs := h.rest.trans hcs
    have hindent : isIndent c := by
      by_contra hc
      exact hmis.misindents.ne_nil (List.takeWhile_cons_of_neg hc)
    have hfails := Fails.indentation (isBlank_of_isIndent hindent) hcolumn hmis
    rw [tokens_of_piece hrest, piece_of_fails hrest hfails]
    simp only [h.place]

theorem AtLine.tokens_of_misindented {fault : Fault} (h : s.AtLine file above rest)
    (habove : StartsLine above) (hmis : Misindented rest fault) :
    s.tokens = .error ⟨fault, ⟨file, 1 + above.count '\n', 1⟩⟩ := by
  rw [h.toAt.tokens_of_misindented (h.column habove) hmis, habove.placeAfter]

/-! ## In front of a line feed -/

theorem Fails.lexeme_feed {c : Char} {cs : List Char} {fault : Fault} (hbreak : c ∉ breaks)
    (ho : Lexeme.opensComment (c :: cs) = false) (hnext : Lexeme.next c cs = .error fault)
    (t : Scanner) (below : List Char) : t.Fails c (cs ++ '\n' :: below) fault := by
  refine .lexeme hbreak ?_ ?_
  · rw [Lexeme.opensComment_line .feed, ho]
  · rw [Lexeme.next_line .feed, hnext]

/-- Blanks are passed over unless they are bad indentation. -/
theorem At.run_blanks {level : Nat} (h : s.At file before (text ++ rest)) (hne : text ≠ [])
    (hall : ∀ c ∈ text, isBlank c) (hstops : Stops isBlank rest)
    (hlevel : levelBehind s.cursor.column s.level (text ++ rest) = .ok level) :
    ∃ s', Run s [] s' ∧ s'.At file (before ++ text) rest ∧ s'.level = level ∧
      s'.written = s.written := by
  obtain ⟨c, cs, rfl⟩ := List.exists_cons_of_ne_nil hne
  rw [← h.rest] at hlevel
  have hblanks := blanks_eq_ok.mpr ⟨level, hlevel, rfl⟩
  have hpiece := piece_of_step (@Step.blanks s c (cs ++ rest) _ (hall c List.mem_cons_self) hblanks)
  exact ⟨_, .single h.rest hpiece, h.piece_of_isPiece (.blanks hne hall hstops) rfl hpiece, rfl, rfl⟩

/-- A word has its token, with the level of the line. -/
theorem At.run_word {span : List Char} {l : Lexeme} (h : s.At file before (span ++ rest))
    (hforms : Lexeme.Forms span l rest) :
    ∃ s', Run s [l.token (placeAfter file before) s.level] s' ∧ s'.At file (before ++ span) rest ∧
      s'.level = s.level ∧ s'.written = true := by
  obtain ⟨c, more, rfl, -⟩ := hforms.first
  have hpiece := piece_of_forms hforms (List.cons_append ..).symm s
  have hrun : Run s [l.token s.place s.level] (s.lexeme l).2 := .single h.rest hpiece
  have hpass := h.pass hforms.newline_not_mem
  rw [h.place] at hrun
  rw [← hforms.size_eq] at hpass
  exact ⟨_, hrun, ⟨hpass.rest, hpass.place⟩, rfl, rfl⟩

/-- Indentation in front of a carriage return is passed over if a line feed follows. -/
theorem At.run_returned (h : s.At file before (text ++ '\n' :: below))
    (hreturn : text.dropWhile isIndent = ['\r']) :
    ∃ s', Run s [] s' ∧ s'.At file (before ++ text) ('\n' :: below) ∧ s'.written = s.written := by
  have hcut := List.takeWhile_append_dropWhile (p := isIndent) (l := text)
  rw [hreturn] at hcut
  have hall : ∀ d ∈ text, isBlank d := by
    intro d hd
    rw [← hcut] at hd
    rcases List.mem_append.mp hd with hd | hd
    · exact isBlank_of_isIndent (mem_takeWhile hd)
    · obtain rfl := List.mem_singleton.mp hd
      rfl
  have hempty : EmptyLine ((text ++ '\n' :: below).dropWhile isIndent) := by
    rw [dropWhile_append_of_stops (stops_feed (by decide) below), hreturn]
    exact .inl .returned
  have hne : text ≠ [] := hcut ▸ List.append_ne_nil_of_right_ne_nil _ (List.cons_ne_nil _ _)
  obtain ⟨s', hrun, hat, -, hwritten⟩ :=
    h.run_blanks hne hall (stops_feed (by decide) below) (levelBehind_of_empty hempty)
  exact ⟨s', hrun, hat, hwritten⟩

/-- The line feed in front of a line ends what is above. -/
theorem At.run_feed (h : s.At file before ('\n' :: below)) :
    Run s s.endLine.1 s.endLine.2 ∧ s.endLine.2.AtLine file (before ++ ['\n']) below :=
  ⟨.single h.rest (piece_newline s below), h.atLine⟩

theorem endLine_of_not_written (h : s.written = false) : s.endLine.1 = [] := by
  rw [endLine, h]
  rfl

theorem finish_of_not_written (h : s.written = false) : s.finish = [.endAt s.place] := by
  rw [finish, h]
  rfl

theorem finish_of_written (h : s.written = true) :
    s.finish = [.plain .endOfStatement "" s.place s.level, .endAt s.place] := by
  rw [finish, h]
  rfl

/-- A line without words ends with nothing. -/
theorem At.run_emptyFeed (h : s.At file before ('\n' :: below)) (hw : s.written = false) :
    ∃ s', Run s [] s' ∧ s'.AtLine file (before ++ ['\n']) below := by
  obtain ⟨hfeed, hline⟩ := h.run_feed
  rw [endLine_of_not_written hw] at hfeed
  exact ⟨_, hfeed, hline⟩

theorem Follows.at (h : Follows 0 below s s') (hat : s.At file before rest) :
    s'.At file before (rest ++ below) :=
  ⟨by rw [h.rest, hat.rest], h.place.trans hat.place⟩

end Scanner

/-! ## Above a line -/

open Scanner (Run start)

/-- What becomes of the text above a line. -/
inductive ReadAbove (file : String) (above : List Char) : Prop where
  | comment : InComment above → ReadAbove file above
  | fault {d : Diagnostic} : d.location.line ≤ above.count '\n' →
      (∀ rest, (start file (above ++ rest)).tokens = .error d) → ReadAbove file above
  | tokens {read : List Token} : (∀ t ∈ read, t.location.line ≤ above.count '\n') →
      (∀ rest, ∃ s, Run (start file (above ++ rest)) read s ∧ s.AtLine file above rest) →
      ReadAbove file above

/-- Tokens of whole lines stand above the next one. -/
theorem readAbove_of_run {file : String} {above : List Char} {read : List Token}
    (h : ∀ rest, ∃ s, Run (start file (above ++ rest)) read s ∧ s.AtLine file above rest) :
    ReadAbove file above := by
  obtain ⟨s, hrun, hline⟩ := h []
  have hread := (Scanner.hasRead_start file (above ++ [])).run hrun
  refine .tokens (fun t ht => ?_) h
  have hlt := hread.line_lt hline.written t ht
  rw [hline.toAt.line] at hlt
  omega

section Feed

variable {file : String} {text before cs : List Char} {c : Char} {read : List Token} {s : Scanner}

/-- A text is read in the same way if a line feed follows. -/
theorem Scanner.Run.feed (hrun : Run (start file text) read s) (below : List Char) :
    ∃ t, Run (start file (text ++ ['\n'] ++ below)) read t ∧ s.Steady ∧
      s.Follows 0 ('\n' :: below) t := by
  have hstart : (start file text).Follows 0 ('\n' :: below) (start file (text ++ ['\n'] ++ below)) :=
    ⟨rfl, List.append_assoc .., rfl, rfl, rfl, .inl rfl⟩
  obtain ⟨t, hrun', hsteady, hfollows⟩ :=
    hstart.run hrun (Scanner.steady_start file text) (stops_feed (by decide) below)
  rw [Token.lower_zero, List.map_id] at hrun'
  exact ⟨t, hrun', hsteady, hfollows⟩

theorem readAbove_of_fails {fault : Fault} (hrun : Run (start file (before ++ c :: cs)) read s)
    (hat : s.At file before (c :: cs))
    (hfails : ∀ (t : Scanner) (below : List Char), t.cursor.column = s.cursor.column →
      t.Fails c (cs ++ '\n' :: below) fault) :
    ReadAbove file (before ++ c :: cs ++ ['\n']) := by
  refine @ReadAbove.fault file _ ⟨fault, s.place⟩ ?_ fun below => ?_
  · rw [hat.place]
    simp only [placeAfter, List.count_append, List.count_singleton_self]
    omega
  · obtain ⟨t, hrun', -, hfollows⟩ := hrun.feed below
    have hat' := hfollows.at hat
    rw [hrun'.tokens, Scanner.tokens_of_piece hat'.rest,
      Scanner.piece_of_fails hat'.rest (hfails t below hfollows.column), hat'.place, hat.place]
    rfl

theorem readAbove_feed (file : String) (text : List Char) : ReadAbove file (text ++ ['\n']) := by
  obtain ⟨read, s, hrun, hend⟩ := Scanner.exists_run (start file text)
  obtain ⟨before, rest, rfl, hparted, hat⟩ := hrun.parted (Scanner.at_start file text)
  rw [List.nil_append] at hat
  rcases hend with hend | ⟨c, cs, fault, hrest, hp⟩
  · obtain rfl : rest = [] := hat.rest.symm.trans hend
    refine @readAbove_of_run file _ (read ++ s.endLine.1) fun below => ?_
    obtain ⟨t, hrun', -, hfollows⟩ := hrun.feed below
    obtain ⟨hfeed, hline⟩ := (hfollows.at hat).run_feed
    rw [hfollows.read_endLine, Token.lower_zero, List.map_id] at hfeed
    exact ⟨_, hrun'.trans hfeed, by rwa [List.append_nil]⟩
  · obtain rfl : rest = c :: cs := hat.rest.symm.trans hrest
    cases Scanner.fails_of_piece hrest hp with
    | comment hcomment =>
      exact .comment (InComment.feed ⟨before, _, rfl, hparted, comment?_eq_none_iff.mp hcomment⟩)
    | lexeme hbreak ho hnext =>
      exact readAbove_of_fails hrun hat fun t below _ => .lexeme_feed hbreak ho hnext t below
    | indentation hblank hcolumn hmis =>
      by_cases hreturn : (c :: cs).dropWhile isIndent = ['\r']
      · refine @readAbove_of_run file _ read fun below => ?_
        obtain ⟨t, hrun', hsteady, hfollows⟩ := hrun.feed below
        obtain ⟨t', hblanks, hat', hwritten⟩ := (hfollows.at hat).run_returned hreturn
        have hnone : s.written = false :=
          Bool.eq_false_iff.mpr fun hw => hsteady.column_ne hw hcolumn
        obtain ⟨t'', hfeed, hline⟩ := hat'.run_emptyFeed (hwritten.trans (hfollows.written.trans hnone))
        exact ⟨t'', by simpa using hrun'.trans (hblanks.trans hfeed), hline⟩
      · have hfails (t : Scanner) (below : List Char) (hcolumn' : t.cursor.column = s.cursor.column) :
            t.Fails c (cs ++ '\n' :: below) fault :=
          .indentation hblank (hcolumn'.trans hcolumn) (hmis.feed hreturn below)
        exact readAbove_of_fails hrun hat hfails

end Feed

/-- The text above a line is read in one way, whatever stands in the line and below it. -/
theorem StartsLine.readAbove {above : List Char} (h : StartsLine above) (file : String) :
    ReadAbove file above := by
  rcases h.eq_nil_or_append with rfl | ⟨text, rfl⟩
  · exact readAbove_of_run fun rest => ⟨_, .refl _, Scanner.atLine_start file rest⟩
  · exact readAbove_feed file text

end Offside
