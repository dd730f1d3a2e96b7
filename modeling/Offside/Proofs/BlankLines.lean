import Offside.Proofs.Execution
import Offside.Proofs.LineStarts
import Offside.Proofs.WordPlaces

/-!
# Lines without words

A line that has nothing but blanks and comments makes no token. It may be taken out of a text, which moves
what is below it one line up and changes nothing else; only bad indentation, in front of anything but the end
of the line or a comment to its end, is a fault in such a line as in any other.
-/

namespace Offside

set_option autoImplicit false

open Scanner (isBlank Closes)

/-- The line has nothing but blanks and comments that end in it. -/
inductive IsBlankLine : List Char → Prop where
  | nil : IsBlankLine []
  | blank {c : Char} {line : List Char} : isBlank c → IsBlankLine line → IsBlankLine (c :: line)
  | blockComment {text line : List Char} : Closes 1 text → '\n' ∉ text → IsBlankLine line →
      IsBlankLine ('/' :: '*' :: text ++ line)
  | lineComment {text : List Char} : '\n' ∉ text → IsBlankLine ('/' :: '/' :: text)

theorem IsBlankLine.newline_not_mem {line : List Char} (h : IsBlankLine line) : '\n' ∉ line := by
  induction h with
  | nil => exact List.not_mem_nil
  | @blank c line hc _ ih =>
    refine fun hmem => (List.mem_cons.mp hmem).elim ?_ ih
    rintro rfl
    cases hc
  | blockComment _ htext _ ih => simp [htext, ih]
  | lineComment htext => simp [htext]

theorem IsBlankLine.dropWhile {line : List Char} (h : IsBlankLine line) :
    IsBlankLine (line.dropWhile isBlank) := by
  induction h with
  | nil => exact .nil
  | blank hc _ ih =>
    rw [List.dropWhile_cons_of_pos hc]
    exact ih
  | blockComment hcloses htext hline => exact .blockComment hcloses htext hline
  | lineComment htext => exact .lineComment htext

theorem IsBlankLine.append {blanks line : List Char} (h : IsBlankLine line)
    (hall : ∀ c ∈ blanks, isBlank c) : IsBlankLine (blanks ++ line) := by
  induction blanks with
  | nil => exact h
  | cons c blanks ih =>
    obtain ⟨hc, hblanks⟩ := List.forall_mem_cons.mp hall
    exact .blank hc (ih hblanks)

/-- An empty line has no words. -/
theorem EmptyLine.exists_isBlankLine {rest : List Char} (h : EmptyLine rest) :
    ∃ line tail, rest = line ++ tail ∧ IsBlankLine line ∧ Stops (· ≠ '\n') tail := by
  rcases h with hend | ⟨more, rfl⟩
  · cases hend with
    | none => exact ⟨[], [], rfl, .nil, stops_nil _⟩
    | @feed more => exact ⟨[], '\n' :: more, rfl, .nil, stops_feed (by decide) more⟩
    | @returned more => exact ⟨['\r'], '\n' :: more, rfl, .blank rfl .nil, stops_feed (by decide) more⟩
  · have hfeed : '\n' ∉ more.takeWhile (· ≠ '\n') :=
      not_mem_of_forall (p := (· ≠ '\n')) (by decide) fun _ hc => mem_takeWhile hc
    refine ⟨_, more.dropWhile (· ≠ '\n'), ?_, .lineComment hfeed, stops_dropWhile _ more⟩
    change '/' :: '/' :: more = '/' :: '/' :: (more.takeWhile (· ≠ '\n') ++ more.dropWhile (· ≠ '\n'))
    rw [List.takeWhile_append_dropWhile]

/-! ## Reading such a line -/

namespace Scanner

variable {s s' : Scanner} {file : String} {above before line rest tail text : List Char}

theorem At.column_ne (h : s.At file (before ++ text) rest) (hne : text ≠ []) (hn : '\n' ∉ text) :
    s.cursor.column ≠ 1 := by
  have hpos := List.length_pos_iff.mpr hne
  rw [h.column, placeAfter_append file before hn]
  simp only [placeAfter]
  omega

/-- A comment without a line feed makes no token. -/
theorem passText_eq (s : Scanner) (h : '\n' ∉ text) :
    (s.passText text).1 = [] ∧ (s.passText text).2.level = s.level ∧
      (s.passText text).2.written = s.written := by
  induction text generalizing s with
  | nil => exact ⟨rfl, rfl, rfl⟩
  | cons c text ih =>
    rw [List.mem_cons, not_or] at h
    obtain ⟨hc, htext⟩ := h
    simp only [passText, if_neg (Ne.symm hc), List.nil_append]
    exact ih (s.pass 1) htext

theorem At.run_lineComment (h : s.At file before ('/' :: '/' :: text ++ tail)) (htext : '\n' ∉ text)
    (htail : Stops (· ≠ '\n') tail) :
    ∃ s', Run s [] s' ∧ s'.At file (before ++ '/' :: '/' :: text) tail ∧ s'.level = s.level ∧
      s'.written = s.written := by
  have hfeed : '\n' ∉ '/' :: '/' :: text := by simp [htext]
  have hpiece := piece_lineComment s (text ++ tail)
  have htake := takeWhile_append_stops (forall_ne_of_not_mem hfeed) htail
  rw [List.cons_append, List.cons_append] at htake
  rw [htake] at hpiece
  exact ⟨_, .single h.rest hpiece, h.pass hfeed, rfl, rfl⟩

theorem At.run_blockComment (h : s.At file before ('/' :: '*' :: text ++ rest)) (hcloses : Closes 1 text)
    (htext : '\n' ∉ text) :
    ∃ s', Run s [] s' ∧ s'.At file (before ++ '/' :: '*' :: text) rest ∧ s'.level = s.level ∧
      s'.written = s.written := by
  have hfeed : '\n' ∉ '/' :: '*' :: text := by simp [htext]
  obtain ⟨hread, hstate⟩ := s.passText_eq hfeed
  have hstep : s.Step '/' ('*' :: (text ++ rest)) _ _ := .blockComment hcloses
  rw [hread] at hstep
  exact ⟨_, .single h.rest (piece_of_step hstep), h.passText, hstate⟩

/-- The blanks that a line begins with are passed over unless they are bad indentation. -/
theorem At.run_leadingBlanks (h : s.At file before (line ++ tail)) (hne : line.takeWhile isBlank ≠ [])
    (htail : Stops (· ≠ '\n') tail)
    (hindent : s.cursor.column = 1 → ∀ fault, ¬ Misindented (line ++ tail) fault) :
    ∃ s', Run s [] s' ∧ s'.At file (before ++ line.takeWhile isBlank) (line.dropWhile isBlank ++ tail) ∧
      s'.written = s.written := by
  have hcut : line.takeWhile isBlank ++ (line.dropWhile isBlank ++ tail) = line ++ tail := by
    rw [← List.append_assoc, List.takeWhile_append_dropWhile]
  have hstops : Stops isBlank (line.dropWhile isBlank ++ tail) :=
    Stops.append (stops_dropWhile isBlank _) fun _ => htail.of_newline (by decide)
  rw [← hcut] at h hindent
  cases hlevel : levelBehind s.cursor.column s.level
      (line.takeWhile isBlank ++ (line.dropWhile isBlank ++ tail)) with
  | error fault =>
    obtain ⟨hcolumn, hmis⟩ := levelBehind_eq_error.mp hlevel
    exact absurd hmis (hindent hcolumn fault)
  | ok level =>
    obtain ⟨s', hrun, hat, -, hwritten⟩ := h.run_blanks hne (fun _ hc => mem_takeWhile hc) hstops hlevel
    exact ⟨s', hrun, hat, hwritten⟩

/-- A scanner gets to the end of a line without words, and nothing is read. -/
theorem At.run_blankLine (h : s.At file before (line ++ tail)) (hline : IsBlankLine line)
    (htail : Stops (· ≠ '\n') tail)
    (hindent : s.cursor.column = 1 → ∀ fault, ¬ Misindented (line ++ tail) fault) :
    ∃ s', Run s [] s' ∧ s'.At file (before ++ line) tail ∧ s'.written = s.written := by
  induction hn : line.length using Nat.strongRecOn generalizing s before line with
  | ind n ih =>
    -- Behind its first piece the line has no indentation any more.
    have hgoesOn {text more : List Char} {t : Scanner} (hcut : line = text ++ more) (hne : text ≠ [])
        (hmore : IsBlankLine more) (hrun : Run s [] t) (hat : t.At file (before ++ text) (more ++ tail))
        (hwritten : t.written = s.written) :
        ∃ s', Run s [] s' ∧ s'.At file (before ++ line) tail ∧ s'.written = s.written := by
      have hfeed : '\n' ∉ text := fun hmem =>
        hline.newline_not_mem (hcut ▸ List.mem_append_left more hmem)
      have hlt : more.length < n := by
        have hpos := List.length_pos_iff.mpr hne
        rw [← hn, hcut, List.length_append]
        omega
      obtain ⟨s', hrun', hat', hwritten'⟩ :=
        ih more.length hlt hat hmore (fun hcolumn => absurd hcolumn (hat.column_ne hne hfeed)) rfl
      refine ⟨s', hrun.trans hrun', ?_, hwritten'.trans hwritten⟩
      rwa [hcut, ← List.append_assoc]
    cases hline with
    | nil => exact ⟨s, .refl s, by rwa [List.append_nil], rfl⟩
    | @blank c line hc hline =>
      have hne : (c :: line).takeWhile isBlank ≠ [] := by
        rw [List.takeWhile_cons_of_pos hc]
        exact List.cons_ne_nil _ _
      obtain ⟨t, hrun, hat, hwritten⟩ := h.run_leadingBlanks hne htail hindent
      exact hgoesOn List.takeWhile_append_dropWhile.symm hne (IsBlankLine.blank hc hline).dropWhile hrun
        hat hwritten
    | @blockComment text line hcloses htext hline =>
      rw [List.append_assoc] at h
      obtain ⟨t, hrun, hat, -, hwritten⟩ := h.run_blockComment hcloses htext
      exact hgoesOn rfl (List.cons_ne_nil _ _) hline hrun hat hwritten
    | lineComment htext =>
      obtain ⟨t, hrun, hat, -, hwritten⟩ := h.run_lineComment htext htail
      exact ⟨t, hrun, hat, hwritten⟩

/-! ## What is read from a place on -/

theorem line_le_placeAfter (file : String) (before text : List Char) :
    1 + before.count '\n' ≤ (placeAfter file (before ++ text)).line := by
  simp only [placeAfter, List.count_append]
  omega

theorem At.line_le {ts : List Token} (h : s.At file before rest) (ht : s.tokens = .ok ts) :
    ∀ t ∈ ts, 1 + before.count '\n' ≤ t.location.line := by
  intro t hmem
  obtain ⟨text, -, hplace⟩ := (h.covers ht).place hmem
  rw [hplace]
  exact line_le_placeAfter file before text

theorem At.line_le_error {d : Diagnostic} (h : s.At file before rest) (ht : s.tokens = .error d) :
    1 + before.count '\n' ≤ d.location.line := by
  obtain ⟨read, s', c, cs, fault, hrun, -, -, rfl⟩ := tokens_eq_error.mp ht
  obtain ⟨text, rest', -, -, hat⟩ := hrun.parted h
  rw [show s'.place = _ from hat.place]
  exact line_le_placeAfter file before text

theorem AtLine.steady (h : s.AtLine file above rest) (habove : StartsLine above) : s.Steady where
  column_pos := (h.column habove).ge
  column_ne hw := absurd hw (by simp [h.written])

/-- Where a line begins, only the text that is to come matters. -/
theorem AtLine.follows {above' : List Char} {n : Nat} (h : s.AtLine file above rest)
    (h' : s'.AtLine file above' rest) (habove : StartsLine above) (habove' : StartsLine above')
    (hn : above'.count '\n' = above.count '\n' + n) : s.Follows n [] s' where
  file := (congrArg Location.file h'.place).trans (congrArg Location.file h.place).symm
  rest := by rw [h'.rest, h.rest, List.append_nil]
  line := by
    rw [h'.toAt.line, h.toAt.line, hn]
    omega
  column := by rw [h'.column habove', h.column habove]
  written := by rw [h'.written, h.written]
  level := .inl (by rw [h'.level, h.level])

end Scanner

/-- A text that is read has no open comment at its end. -/
theorem not_inComment_of_tokenize {source file : String} {ts : List Token}
    (h : tokenize source file = .ok ts) : ¬ InComment source.toList := by
  obtain ⟨read, s, hrun, hend, -⟩ := Scanner.tokens_eq_ok.mp h
  exact hrun.not_inComment (List.append_nil _).symm hend

/-! ## Taking a line out -/

/-- What is further down than the line `n` moves down by one line. -/
def Location.lowerBehind (n : Nat) (l : Location) : Location := if n < l.line then l.lower 1 else l

def Token.lowerBehind (n : Nat) (t : Token) : Token := { t with location := t.location.lowerBehind n }

def Diagnostic.lowerBehind (n : Nat) (d : Diagnostic) : Diagnostic :=
  { d with location := d.location.lowerBehind n }

section LowerBehind

variable {n : Nat}

theorem Location.lowerBehind_of_le {l : Location} (h : l.line ≤ n) : l.lowerBehind n = l :=
  if_neg (Nat.not_lt.mpr h)

theorem Location.lowerBehind_of_lt {l : Location} (h : n < l.line) : l.lowerBehind n = l.lower 1 :=
  if_pos h

theorem Location.line_lowerBehind_ne (n : Nat) (l : Location) : (l.lowerBehind n).line ≠ 1 + n := by
  unfold lowerBehind
  split
  · simp only [lower]
    omega
  · omega

theorem Token.map_lowerBehind_of_le {ts : List Token} (h : ∀ t ∈ ts, t.location.line ≤ n) :
    ts.map (Token.lowerBehind n) = ts := by
  have hfix : ∀ t ∈ ts, t.lowerBehind n = t := by
    intro t ht
    rw [Token.lowerBehind, Location.lowerBehind_of_le (h t ht)]
  rw [List.map_congr_left hfix, List.map_id']

theorem Token.map_lowerBehind_of_lt {ts : List Token} (h : ∀ t ∈ ts, n < t.location.line) :
    ts.map (Token.lowerBehind n) = ts.map (Token.lower 1) := by
  refine List.map_congr_left fun t ht => ?_
  rw [Token.lowerBehind, Location.lowerBehind_of_lt (h t ht)]
  rfl

end LowerBehind

/-- What is read of a text has another line above it, behind line `n`. -/
def lowerBehind (n : Nat) (x : Except Diagnostic (List Token)) : Except Diagnostic (List Token) :=
  (x.map (List.map (Token.lowerBehind n))).mapError (Diagnostic.lowerBehind n)

/-- No token and no fault stands in the line. -/
def Spares (number : Nat) (x : Except Diagnostic (List Token)) : Prop :=
  (∀ ts, x = .ok ts → ∀ t ∈ ts, t.location.line ≠ number) ∧
    ∀ d, x = .error d → d.location.line ≠ number

theorem spares_lowerBehind (n : Nat) (x : Except Diagnostic (List Token)) :
    Spares (1 + n) (lowerBehind n x) := by
  cases x with
  | error d =>
    refine ⟨nofun, fun d' herror => ?_⟩
    cases herror
    exact Location.line_lowerBehind_ne n d.location
  | ok ts =>
    refine ⟨fun us hok t ht => ?_, nofun⟩
    cases hok
    obtain ⟨u, -, rfl⟩ := List.mem_map.mp ht
    exact Location.line_lowerBehind_ne n u.location

open Scanner (start)

theorem tokens_blankLine {file : String} {above line below : List Char} (habove : StartsLine above)
    (hcomment : ¬ InComment above) (hline : IsBlankLine line)
    (hindent : ∀ fault, ¬ Misindented (line ++ '\n' :: below) fault) :
    (start file (above ++ (line ++ '\n' :: below))).tokens =
      lowerBehind (above.count '\n') (start file (above ++ below)).tokens := by
  cases habove.readAbove file with
  | comment hinside => exact absurd hinside hcomment
  | @fault d hle herror =>
    rw [herror, herror]
    simp only [lowerBehind, Except.map, Except.mapError, Diagnostic.lowerBehind,
      Location.lowerBehind_of_le hle]
  | @tokens read hle hread =>
    obtain ⟨s, hrun, hat⟩ := hread (line ++ '\n' :: below)
    obtain ⟨s', hrun', hat'⟩ := hread below
    obtain ⟨t, hskip, hend, hwritten⟩ :=
      hat.toAt.run_blankLine hline (stops_feed (by decide) below) fun _ => hindent
    obtain ⟨t', hfeed, hbelow⟩ := hend.run_emptyFeed (hwritten.trans hat.written)
    have hcount : (above ++ line ++ ['\n']).count '\n' = above.count '\n' + 1 := by
      simp [List.count_eq_zero_of_not_mem hline.newline_not_mem]
    have hfollows := hat'.follows hbelow habove (startsLine_append_newline _) hcount
    rw [((hrun.trans hskip).trans hfeed).tokens, hrun'.tokens, hfollows.tokens (hat'.steady habove),
      List.append_nil, List.append_nil]
    cases hs : s'.tokens with
    | error d =>
      have hlt : above.count '\n' < d.location.line := by
        have hle := hat'.toAt.line_le_error hs
        omega
      simp only [lowerBehind, Except.map, Except.mapError, Diagnostic.lowerBehind, Diagnostic.lower,
        Location.lowerBehind_of_lt hlt]
    | ok ts =>
      have hlt : ∀ t ∈ ts, above.count '\n' < t.location.line := by
        intro t ht
        have hle := hat'.toAt.line_le hs t ht
        omega
      simp only [lowerBehind, Except.map, Except.mapError, List.map_append,
        Token.map_lowerBehind_of_le hle, Token.map_lowerBehind_of_lt hlt]

theorem tokens_lastBlankLine {file : String} {above line : List Char} (habove : StartsLine above)
    (hcomment : ¬ InComment above) (hline : IsBlankLine line)
    (hindent : ∀ fault, ¬ Misindented line fault) :
    (start file (above ++ line)).tokens = (start file above).tokens.map fun ts =>
      ts.dropLast ++ [.endAt (placeAfter file (above ++ line))] := by
  cases habove.readAbove file with
  | comment hinside => exact absurd hinside hcomment
  | @fault d hle herror =>
    have habove := herror []
    rw [List.append_nil] at habove
    rw [herror, habove]
    rfl
  | @tokens read hle hread =>
    obtain ⟨s, hrun, hat⟩ := hread line
    obtain ⟨s', hrun', hat'⟩ := hread []
    rw [List.append_nil] at hrun'
    have hat₀ : s.At file above (line ++ []) := by rw [List.append_nil]; exact hat.toAt
    obtain ⟨t, hskip, hend, hwritten⟩ := hat₀.run_blankLine hline (stops_nil _) fun _ fault => by
      rw [List.append_nil]
      exact hindent fault
    rw [(hrun.trans hskip).tokens, hrun'.tokens, Scanner.tokens_of_end hend.rest,
      Scanner.tokens_of_end hat'.rest, Scanner.finish_of_not_written (hwritten.trans hat.written),
      Scanner.finish_of_not_written hat'.written, hend.place]
    simp [Except.map]

/-- A line that has no words and no bad indentation is as good as none: no token and no fault stands in it,
and without it all that is below moves one line up. Without the last line of a text, which no line feed ends,
the end of the file moves to where that line began. -/
theorem tokenize_blankLine {above line : String} (file : String) (habove : StartsLine above.toList)
    (hcomment : ¬ InComment above.toList) (hline : IsBlankLine line.toList) :
    (∀ below : String, (∀ fault, ¬ Misindented (line.toList ++ '\n' :: below.toList) fault) →
      Spares (1 + above.toList.count '\n') (tokenize (above ++ line ++ "\n" ++ below) file) ∧
      tokenize (above ++ line ++ "\n" ++ below) file =
        lowerBehind (above.toList.count '\n') (tokenize (above ++ below) file)) ∧
    ((∀ fault, ¬ Misindented line.toList fault) →
      tokenize (above ++ line) file = (tokenize above file).map fun ts =>
        ts.dropLast ++ [.endAt ⟨file, 1 + above.toList.count '\n', 1 + line.length⟩]) := by
  constructor
  · intro below hindent
    have hremove : tokenize (above ++ line ++ "\n" ++ below) file =
        lowerBehind (above.toList.count '\n') (tokenize (above ++ below) file) := by
      have htext : (above ++ line ++ "\n" ++ below).toList =
          above.toList ++ (line.toList ++ '\n' :: below.toList) := by simp
      unfold tokenize
      rw [htext, String.toList_append, tokens_blankLine habove hcomment hline hindent]
    rw [hremove]
    exact ⟨spares_lowerBehind _ _, rfl⟩
  · intro hindent
    have hplace := habove.placeAfter_append hline.newline_not_mem file
    rw [String.length_toList] at hplace
    unfold tokenize
    rw [String.toList_append, tokens_lastBlankLine habove hcomment hline hindent, hplace]

/-- Both kinds of comments behind a tab. -/
theorem tokenize_blankLine_comments :
    StartsLine "a // b\n".toList ∧ ¬ InComment "a // b\n".toList ∧
      IsBlankLine "\t/* c */ \x0c// d".toList ∧
      (∀ fault, ¬ Misindented ("\t/* c */ \x0c// d".toList ++ '\n' :: "e".toList) fault) ∧
      tokenize ("a // b\n" ++ "\t/* c */ \x0c// d" ++ "\n" ++ "e") "" =
        lowerBehind 1 (tokenize ("a // b\n" ++ "e") "") := by
  have habove : "a // b\n".toList = ['a', ' ', '/', '/', ' ', 'b'] ++ ['\n'] := by decide +kernel
  have hline : "\t/* c */ \x0c// d".toList =
      ['\t', '/', '*', ' ', 'c', ' ', '*', '/', ' ', '\x0c', '/', '/', ' ', 'd'] := by decide +kernel
  have hread : ((tokenize "a // b\n" "").map fun _ => ()).toOption = some () := by decide +kernel
  obtain ⟨ts, hts, -⟩ := Execution.exists_ok_of_map hread
  have hstarts : StartsLine "a // b\n".toList := habove ▸ startsLine_append_newline _
  have hcloses : Closes 1 [' ', 'c', ' ', '*', '/'] :=
    .other (by decide) (by decide) (.other (by decide) (by decide) (.other (by decide) (by decide) .last))
  have hblank : IsBlankLine "\t/* c */ \x0c// d".toList := by
    rw [hline]
    exact .blank rfl (.blockComment hcloses (by decide)
      (.blank rfl (.blank rfl (.lineComment (by decide)))))
  have hindent (fault : Fault) : ¬ Misindented ("\t/* c */ \x0c// d".toList ++ '\n' :: "e".toList) fault := by
    rw [hline]
    exact fun hmis => Scanner.not_misindents_of_isIndentation (@IsIndentation.tabs 1) hmis.misindents
  have hcomment := not_inComment_of_tokenize hts
  have hcount : "a // b\n".toList.count '\n' = 1 := by decide +kernel
  refine ⟨hstarts, hcomment, hblank, hindent, ?_⟩
  have hremove := ((tokenize_blankLine "" hstarts hcomment hblank).1 "e" hindent).2
  rwa [hcount] at hremove

/-- A block comment behind indentation is a fault, where one to the end of the line is none. -/
theorem blankLine_misindented :
    IsBlankLine "   /* c */".toList ∧
      tokenize ("" ++ "   /* c */" ++ "\n" ++ "x") "" = .error ⟨.badIndentation 3, ⟨"", 1, 1⟩⟩ ∧
      tokenize ("" ++ "   /* c */" ++ "\n" ++ "x") "" ≠ lowerBehind 0 (tokenize ("" ++ "x") "") := by
  have hline : "   /* c */".toList = [' ', ' ', ' ', '/', '*', ' ', 'c', ' ', '*', '/'] := by decide +kernel
  have hcloses : Closes 1 [' ', 'c', ' ', '*', '/'] :=
    .other (by decide) (by decide) (.other (by decide) (by decide) (.other (by decide) (by decide) .last))
  refine ⟨?_, by decide +kernel, by decide +kernel⟩
  rw [hline]
  exact .blank rfl (.blank rfl (.blank rfl (.blockComment hcloses (by decide) .nil)))

end Offside
