import Offside.Proofs.BlankLines

/-!
# The level of a line

All tokens of a line have the level that its indentation stands for, or none if the line begins inside of a
comment. Where indentation that stands for no level has something behind it, the scanner stops, if nothing is
wrong further up.
-/

namespace Offside

set_option autoImplicit false

open Source (isIndent)

namespace Scanner

variable {s s' : Scanner} {file : String} {above before below rest text tail : List Char}
  {number level : Nat} {ts : List Token}

/-! ## One level in one line -/

theorem passText_append (text more : List Char) (s : Scanner) :
    s.passText (text ++ more) =
      ((s.passText text).1 ++ ((s.passText text).2.passText more).1,
        ((s.passText text).2.passText more).2) := by
  induction text generalizing s with
  | nil => rfl
  | cons c text ih => simp [passText, ih]

theorem level_endLine (s : Scanner) :
    ∀ t ∈ s.endLine.1, t.location.line = s.cursor.line ∧ t.level = s.level := by
  unfold endLine
  cases s.written with
  | false => exact List.forall_mem_nil _
  | true => exact List.forall_mem_singleton.mpr ⟨rfl, rfl⟩

/-- In a comment, only the line that it begins in has a level. -/
theorem level_passText (text : List Char) (s : Scanner) :
    ∀ t ∈ (s.passText text).1,
      s.cursor.line ≤ t.location.line ∧ (t.location.line = s.cursor.line → t.level = s.level) := by
  induction text generalizing s with
  | nil => exact List.forall_mem_nil _
  | cons c text ih =>
    by_cases hc : c = '\n'
    · simp only [passText, hc, if_true]
      refine List.forall_mem_append.mpr ⟨fun t ht => ?_, fun t ht => ?_⟩
      · obtain ⟨hline, hlevel⟩ := s.level_endLine t ht
        exact ⟨hline.ge, fun _ => hlevel⟩
      · have hle := (ih s.endLine.2 t ht).1
        rw [line_endLine] at hle
        exact ⟨by omega, fun heq => by omega⟩
    · simp only [passText, hc, if_false, List.nil_append]
      have hline : (s.pass 1).cursor.line = s.cursor.line := Source.Cursor.line_advanceN 1 s.cursor
      intro t ht
      have hpass := ih (s.pass 1) t ht
      rwa [hline] at hpass

/-- The scanner is behind the line, or in it and behind the indentation, which stands for the level. -/
inductive OnLine (number level : Nat) (s : Scanner) : Prop where
  | behind : number < s.cursor.line → OnLine number level s
  | within : s.cursor.line = number → s.level = level →
      (s.cursor.column = 1 → Stops isIndent s.cursor.rest) → OnLine number level s

theorem levelBehind_of_stops {column : Nat} (h : column = 1 → Stops isIndent rest) :
    levelBehind column level rest = .ok level := by
  refine if_neg ?_
  rintro ⟨hcolumn, hne, -⟩
  exact hne (takeWhile_of_stops (h hcolumn))

/-- A scanner that stays in its line stays behind the indentation. -/
theorem At.onLine (h : s.At file before (text ++ rest)) (hne : text ≠ [])
    (hat : s'.At file (before ++ text) rest)
    (hlevel : '\n' ∉ text → s'.level = s.level) : s'.OnLine s.cursor.line s.level := by
  by_cases hfeed : '\n' ∈ text
  · refine .behind ?_
    have hpos := List.count_pos_iff.mpr hfeed
    rw [h.line, hat.line, List.count_append]
    omega
  · refine .within ?_ (hlevel hfeed) fun hcolumn => absurd hcolumn (hat.column_ne hne hfeed)
    rw [h.line, hat.line, List.count_append, List.count_eq_zero_of_not_mem hfeed, Nat.add_zero]

theorem At.onLine_passText (h : s.At file before (text ++ rest)) (hne : text ≠ []) :
    (s.passText text).2.OnLine s.cursor.line s.level :=
  h.onLine hne h.passText fun hfeed => (s.passText_eq hfeed).2.1

/-- One step in a line: the level stays, and what is read has it. -/
theorem Step.onLine {c : Char} {cs : List Char} {read : List Token} (hstep : s.Step c cs read s')
    (h : s.At file before (c :: cs)) (hindent : s.cursor.column = 1 → Stops isIndent s.cursor.rest) :
    s'.OnLine s.cursor.line s.level ∧ ∀ t ∈ read, t.location.line = s.cursor.line → t.level = s.level := by
  obtain ⟨text, rest, hcs, hpiece, hat⟩ := hstep.isPiece h
  have hgoesOn (hlevel : '\n' ∉ text → s'.level = s.level) : s'.OnLine s.cursor.line s.level :=
    (hcs ▸ h).onLine hpiece.ne_nil hat hlevel
  cases hstep with
  | blanks hblank hb =>
    obtain ⟨found, hfound, rfl⟩ := blanks_eq_ok.mp hb
    rw [levelBehind_of_stops hindent, Except.ok.injEq] at hfound
    exact ⟨hgoesOn fun _ => hfound.symm, List.forall_mem_nil _⟩
  | newline =>
    refine ⟨.behind ?_, fun t ht _ => (s.level_endLine t ht).2⟩
    rw [line_endLine]
    exact Nat.lt_succ_self _
  | lineComment => exact ⟨hgoesOn fun _ => rfl, List.forall_mem_nil _⟩
  | @blockComment text rest hcloses =>
    have hcomment : s.At file before ('/' :: '*' :: text ++ rest) := h
    exact ⟨hcomment.onLine_passText (List.cons_ne_nil _ _), fun t ht => (level_passText _ s t ht).2⟩
  | lexeme hcs hforms => exact ⟨hgoesOn fun _ => rfl, List.forall_mem_singleton.mpr fun _ => rfl⟩

theorem Run.tokens_of_nil (h : Run s [] s') : s.tokens = s'.tokens := by
  rw [h.tokens]
  cases s'.tokens <;> rfl

theorem level_finish (s : Scanner) : ∀ t ∈ s.finish, t.kind ≠ .endOfFile → t.level = s.level := by
  have hend : Token.kind (.endAt s.place) = .endOfFile := rfl
  unfold finish
  refine List.forall_mem_append.mpr ⟨?_, List.forall_mem_singleton.mpr fun hkind => absurd hend hkind⟩
  cases s.written with
  | false => exact List.forall_mem_nil _
  | true => exact List.forall_mem_singleton.mpr fun _ => rfl

theorem At.tokens_eq_ok {c : Char} {cs : List Char} (h : s.At file before (c :: cs))
    (ht : s.tokens = .ok ts) :
    ∃ read s' more, s.piece c cs = .ok (read, s') ∧ s'.tokens = .ok more ∧ ts = read ++ more := by
  rw [tokens_of_piece h.rest] at ht
  cases hp : s.piece c cs with
  | error fault => simp [hp] at ht
  | ok result =>
    obtain ⟨read, s'⟩ := result
    simp only [hp] at ht
    cases hmore : s'.tokens with
    | error d => simp [hmore, Except.map] at ht
    | ok more =>
      simp only [hmore, Except.map, Except.ok.injEq] at ht
      exact ⟨read, s', more, rfl, hmore, ht.symm⟩

/-- All that is still to be read of a line has its level. -/
theorem OnLine.level_of_mem (h : s.OnLine number level) (hat : s.At file before rest)
    (ht : s.tokens = .ok ts) :
    ∀ t ∈ ts, t.kind ≠ .endOfFile → t.location.line = number → t.level = level := by
  induction hn : rest.length using Nat.strongRecOn generalizing s before rest ts with
  | ind n ih =>
    cases h with
    | behind hbehind =>
      intro t hmem _ hline
      have hle := hat.line_le ht t hmem
      rw [← hat.line] at hle
      omega
    | within hline hlevel hindent =>
      subst hline hlevel
      cases rest with
      | nil =>
        rw [tokens_of_end hat.rest, Except.ok.injEq] at ht
        exact ht ▸ fun t hmem hkind _ => s.level_finish t hmem hkind
      | cons c cs =>
        obtain ⟨read, s', more, hp, hmore, rfl⟩ := hat.tokens_eq_ok ht
        obtain ⟨text, rest, hcs, hpiece, hat'⟩ := (step_of_piece hp).isPiece hat
        obtain ⟨honLine, hread⟩ := (step_of_piece hp).onLine hat hindent
        have hlt : rest.length < n := by
          have hpos := List.length_pos_iff.mpr hpiece.ne_nil
          rw [← hn, hcs, List.length_append]
          omega
        refine List.forall_mem_append.mpr ⟨fun t hmem _ => hread t hmem, ?_⟩
        exact ih rest.length hlt honLine hat' hmore rfl

/-! ## The level of a line that begins outside of comments -/

/-- A line that is empty behind its indentation makes no token. -/
theorem AtLine.line_lt_of_empty (h : s.AtLine file above rest) (ht : s.tokens = .ok ts)
    (hempty : EmptyLine (rest.dropWhile isIndent)) :
    ∀ t ∈ ts, t.kind ≠ .endOfFile → 1 + above.count '\n' < t.location.line := by
  obtain ⟨line, tail, hcut, hline, htail⟩ := hempty.exists_isBlankLine
  have hrest : rest = rest.takeWhile isIndent ++ line ++ tail := by
    rw [List.append_assoc, ← hcut, List.takeWhile_append_dropWhile]
  have hblank : IsBlankLine (rest.takeWhile isIndent ++ line) :=
    hline.append fun _ hc => isBlank_of_isIndent (mem_takeWhile hc)
  have hat : s.At file above (rest.takeWhile isIndent ++ line ++ tail) := hrest ▸ h.toAt
  obtain ⟨s', hrun, hat', hwritten⟩ :=
    hat.run_blankLine hblank htail fun _ fault hmis => hmis.goesOn (hrest ▸ hempty)
  rw [h.written] at hwritten
  rw [hrun.tokens_of_nil] at ht
  cases tail with
  | nil =>
    rw [tokens_of_end hat'.rest, Except.ok.injEq, finish_of_not_written hwritten] at ht
    subst ht
    exact List.forall_mem_singleton.mpr fun hkind => absurd rfl hkind
  | cons c below =>
    obtain rfl : c = '\n' := by simpa [stops_cons] using htail
    obtain ⟨t, hfeed, hbelow⟩ := hat'.run_emptyFeed hwritten
    rw [hfeed.tokens_of_nil] at ht
    intro t hmem _
    have hle := hbelow.toAt.line_le ht t hmem
    simp only [List.count_append, List.count_singleton_self] at hle
    omega

theorem exists_blanks (rest : List Char) :
    ∃ blanks more, rest = blanks ++ more ∧ (∀ c ∈ blanks, isBlank c) ∧ Stops isBlank more :=
  ⟨rest.takeWhile isBlank, rest.dropWhile isBlank, List.takeWhile_append_dropWhile.symm,
    fun _ hc => mem_takeWhile hc, stops_dropWhile isBlank rest⟩

/-- Where a line begins outside of comments, its tokens have the level of its indentation. -/
theorem AtLine.isIndentation (h : s.AtLine file above rest) (habove : StartsLine above)
    (ht : s.tokens = .ok ts) :
    ∀ t ∈ ts, t.kind ≠ .endOfFile → t.location.line = 1 + above.count '\n' →
      IsIndentation (rest.takeWhile isIndent) t.level := by
  intro t hmem hkind hline
  by_cases hempty : EmptyLine (rest.dropWhile isIndent)
  · exact absurd hline (h.line_lt_of_empty ht hempty t hmem hkind).ne'
  · obtain ⟨blanks, more, rfl, hall, hstops⟩ := exists_blanks rest
    by_cases hne : blanks = []
    · subst hne
      have hindent : Stops isIndent ([] ++ more) := hstops.mono fun _ => isBlank_of_isIndent
      have honLine : s.OnLine (1 + above.count '\n') 0 :=
        .within h.toAt.line h.level fun _ => h.rest ▸ hindent
      rw [honLine.level_of_mem h.toAt ht t hmem hkind hline, takeWhile_of_stops hindent]
      exact isIndentation_nil
    · cases hlevel : levelBehind 1 0 (blanks ++ more) with
      | error fault =>
        obtain ⟨-, hmis⟩ := levelBehind_eq_error.mp hlevel
        rw [h.tokens_of_misindented habove hmis] at ht
        cases ht
      | ok level =>
        have hindent := levelBehind_start hlevel hempty
        rw [← h.column habove, ← h.level] at hlevel
        obtain ⟨s', hrun, hat, rfl, -⟩ := h.toAt.run_blanks hne hall hstops hlevel
        have honLine : s'.OnLine (1 + above.count '\n') s'.level := by
          have hfeed : '\n' ∉ blanks := not_mem_of_forall (by decide) hall
          refine .within ?_ rfl fun hcolumn => absurd hcolumn (hat.column_ne hne hfeed)
          rw [hat.line, List.count_append, List.count_eq_zero_of_not_mem hfeed, Nat.add_zero]
        rw [hrun.tokens_of_nil] at ht
        rw [honLine.level_of_mem hat ht t hmem hkind hline]
        exact hindent

/-! ## The level of a line that begins inside of a comment -/

/-- In a comment a line begins as elsewhere: with no level, and with all that has been read above it. -/
theorem At.exists_atLine {read : List Token} {more : List Char}
    (h : s.At file before (text ++ '\n' :: more ++ tail)) (hread : s.HasRead read) :
    ∃ (passed : List Token) (t : Scanner),
      s.passText (text ++ '\n' :: more) = (passed ++ (t.passText more).1, (t.passText more).2) ∧
        t.AtLine file (before ++ text ++ ['\n']) (more ++ tail) ∧ t.HasRead (read ++ passed) := by
  rw [List.append_assoc] at h
  refine ⟨(s.passText text).1 ++ (s.passText text).2.endLine.1, (s.passText text).2.endLine.2, ?_,
    h.passText.atLine, ?_⟩
  · rw [passText_append, Scanner.passText, if_pos rfl, List.append_assoc]
  · rw [← List.append_assoc]
    exact (hread.passText text).endLine

/-- A text whose line begins inside of a comment is read on from there to the end of the comment. -/
theorem exists_inComment (habove : StartsLine above) (hinside : InComment above)
    (ht : (start file (above ++ rest)).tokens = .ok ts) :
    ∃ (read : List Token) (s : Scanner) (text tail : List Char) (last : List Token),
      s.AtLine file above (text ++ tail) ∧ s.HasRead read ∧ text ≠ [] ∧
        (s.passText text).2.tokens = .ok last ∧ ts = read ++ ((s.passText text).1 ++ last) := by
  obtain ⟨before, inner, rfl, hparted, hopen⟩ := hinside
  obtain ⟨inner, rfl⟩ : ∃ text, inner = text ++ ['\n'] := by
    rw [show before ++ '/' :: '*' :: inner = before ++ ['/', '*'] ++ inner by simp] at habove
    rcases habove.of_append.eq_nil_or_append with rfl | hinner
    · exact absurd (habove '*' (by simp)) (by decide)
    · exact hinner
  obtain ⟨read, s', hrun, hend, rfl⟩ := Scanner.tokens_eq_ok.mp ht
  have hat : (start file (before ++ '/' :: '*' :: (inner ++ ['\n']) ++ rest)).At file []
      (before ++ ('/' :: '*' :: (inner ++ ['\n']) ++ rest)) := by
    rw [← List.append_assoc]
    exact at_start file _
  obtain ⟨first, more, s₁, rfl, hrun₁, hat₁, hrun₂⟩ :=
    hrun.through (hparted.extend (List.cons_ne_nil _ _) rest) hat (by simp [hend])
  have ht₁ : s₁.tokens = .ok (more ++ s'.finish) := by
    rw [hrun₂.tokens, tokens_of_end hend]
    rfl
  obtain ⟨read, s₂, last, hp, ht₂, hmore⟩ := hat₁.tokens_eq_ok ht₁
  obtain ⟨text, tail, hne, rfl, hpass⟩ := piece_openComment hopen hp
  have hcomment : s₁.At file before ('/' :: '*' :: inner ++ '\n' :: text ++ tail) := by
    simpa using hat₁
  obtain ⟨passed, s₃, hsplit, hline, hread⟩ :=
    hcomment.exists_atLine ((hasRead_start file _).run hrun₁)
  rw [show '/' :: '*' :: (inner ++ ['\n'] ++ text) = '/' :: '*' :: inner ++ '\n' :: text by simp,
    hsplit] at hpass
  obtain ⟨rfl, rfl⟩ := Prod.mk.inj hpass
  refine ⟨first ++ passed, s₃, text, tail, last, by simpa using hline, hread, hne, ht₂, ?_⟩
  rw [List.append_assoc, hmore, List.append_assoc, List.append_assoc]

theorem level_of_inComment (habove : StartsLine above) (hinside : InComment above)
    (ht : (start file (above ++ rest)).tokens = .ok ts) :
    ∀ t ∈ ts, t.kind ≠ .endOfFile → t.location.line = 1 + above.count '\n' → t.level = 0 := by
  obtain ⟨read, s, text, tail, last, hline, hread, hne, hlast, rfl⟩ :=
    exists_inComment habove hinside ht
  have hnumber := hline.toAt.line
  have honLine := hline.toAt.onLine_passText hne
  rw [hline.level] at honLine
  intro t hmem hkind heq
  rw [← hnumber] at heq
  rcases List.mem_append.mp hmem with hmem | hmem
  · exact absurd heq (hread.line_lt hline.written t hmem).ne
  · rcases List.mem_append.mp hmem with hmem | hmem
    · rw [(level_passText text s t hmem).2 heq, hline.level]
    · exact honLine.level_of_mem hline.toAt.passText hlast t hmem hkind heq

/-! ## The first line that is badly indented -/

end Scanner

theorem startsLine_of_column {file : String} {text : List Char} (h : (placeAfter file text).column = 1) :
    StartsLine text := by
  obtain ⟨above, line, rfl, habove, hline⟩ := exists_startsLine text
  rw [habove.placeAfter_append hline] at h
  obtain rfl : line = [] := List.length_eq_zero_iff.mp (Nat.add_left_cancel h)
  rwa [List.append_nil]

/-- The line behind `above` is the first one outside of comments that is badly indented. -/
structure FirstMisindented (above rest : List Char) (fault : Fault) : Prop where
  startsLine : StartsLine above
  outside : ¬ InComment above
  misindented : Misindented rest fault
  first : ∀ above' rest', above ++ rest = above' ++ rest' → StartsLine above' →
    above'.count '\n' < above.count '\n' → ¬ InComment above' → ∀ fault', ¬ Misindented rest' fault'

section Misindented

open Scanner (start)

variable {file : String} {above rest : List Char} {fault : Fault} {ts : List Token}

/-- A scanner gets to a line that begins outside of comments if no fault is further up. -/
theorem exists_atLine (habove : StartsLine above) (houtside : ¬ InComment above)
    (herror : ∀ d, (start file (above ++ rest)).tokens = .error d → above.count '\n' < d.location.line) :
    ∃ read : List Token, (∀ t ∈ read, t.location.line ≤ above.count '\n') ∧
      ∀ below, ∃ s, (start file (above ++ below)).Run read s ∧ s.AtLine file above below := by
  cases habove.readAbove file with
  | comment hinside => exact absurd hinside houtside
  | fault hle hfault => exact absurd (herror _ (hfault rest)) (Nat.not_lt.mpr hle)
  | tokens hle hread => exact ⟨_, hle, hread⟩

/-- The tokens of a line that begins outside of comments. -/
theorem isIndentation_of_tokens (habove : StartsLine above) (houtside : ¬ InComment above)
    (ht : (start file (above ++ rest)).tokens = .ok ts) :
    ∀ t ∈ ts, t.kind ≠ .endOfFile → t.location.line = 1 + above.count '\n' →
      IsIndentation (rest.takeWhile isIndent) t.level := by
  obtain ⟨read, hle, hread⟩ := exists_atLine habove houtside fun d hd => by rw [ht] at hd; cases hd
  obtain ⟨s, hrun, hline⟩ := hread rest
  rw [hrun.tokens] at ht
  cases hs : s.tokens with
  | error d => simp [hs, Except.map] at ht
  | ok last =>
    simp only [hs, Except.map, Except.ok.injEq] at ht
    subst ht
    intro t hmem hkind hnumber
    rcases List.mem_append.mp hmem with hmem | hmem
    · have habove := hle t hmem
      omega
    · exact hline.isIndentation habove hs t hmem hkind hnumber

/-- A fault of indentation is that of the first line that is badly indented, and the text above is read. -/
theorem firstMisindented_of_error {source : List Char} {place : Location} (hfault : fault.ofIndentation)
    (h : (start file source).tokens = .error ⟨fault, place⟩) :
    ∃ above rest, source = above ++ rest ∧ FirstMisindented above rest fault ∧
      (∃ ts, (start file above).tokens = .ok ts) ∧ place = ⟨file, 1 + above.count '\n', 1⟩ := by
  obtain ⟨read, s, c, cs, found, hrun, hrest, hp, hd⟩ := Scanner.tokens_eq_error.mp h
  obtain ⟨rfl, rfl⟩ := Diagnostic.mk.inj hd
  obtain ⟨above, rest, rfl, -, hat⟩ := hrun.parted (Scanner.at_start file source)
  obtain rfl : rest = c :: cs := hat.rest.symm.trans hrest
  cases Scanner.fails_of_piece hrest hp with
  | comment => cases hfault
  | lexeme _ _ hnext => simp [Lexeme.ofIndentation_next hnext] at hfault
  | indentation _ hcolumn hmis =>
    rw [hat.column] at hcolumn
    have habove : StartsLine above := startsLine_of_column hcolumn
    have houtside : ¬ InComment above := hrun.not_inComment rfl hrest
    have hplace : s.place = ⟨file, 1 + above.count '\n', 1⟩ := hat.place.trans (habove.placeAfter file)
    have hbehind (d : Diagnostic) (hd : (start file (above ++ c :: cs)).tokens = .error d) :
        above.count '\n' < d.location.line := by
      rw [h, Except.error.injEq] at hd
      rw [← hd, hplace]
      exact Nat.lt_add_of_pos_left Nat.one_pos
    refine ⟨above, c :: cs, rfl, ⟨habove, houtside, hmis, ?_⟩, ?_, hplace⟩
    · intro above' rest' hcut habove' hlt houtside' fault' hmis'
      rw [hcut] at hbehind
      obtain ⟨_, -, hread⟩ := exists_atLine habove' houtside' fun d hd => hlt.trans (hbehind d hd)
      obtain ⟨t, hrun', hline⟩ := hread rest'
      have hfurther := hbehind _ (by
        rw [hrun'.tokens, hline.tokens_of_misindented habove' hmis']
        rfl)
      simp only at hfurther
      omega
    · obtain ⟨_, -, hread⟩ := exists_atLine habove houtside hbehind
      obtain ⟨t, hrun', hline⟩ := hread []
      rw [List.append_nil] at hrun'
      exact ⟨_, by rw [hrun'.tokens, Scanner.tokens_of_end hline.rest]; rfl⟩

theorem tokens_of_firstMisindented (h : FirstMisindented above rest fault)
    (ht : (start file above).tokens = .ok ts) :
    (start file (above ++ rest)).tokens = .error ⟨fault, ⟨file, 1 + above.count '\n', 1⟩⟩ := by
  have habove : (start file (above ++ [])).tokens = .ok ts := by rwa [List.append_nil]
  obtain ⟨read, -, hread⟩ :=
    exists_atLine h.startsLine h.outside fun d hd => by rw [habove] at hd; cases hd
  obtain ⟨s, hrun, hline⟩ := hread rest
  rw [hrun.tokens, hline.tokens_of_misindented h.startsLine h.misindented]
  rfl

end Misindented

/-- The tokens of a line have the level of its indentation, or none if the line begins inside of a comment.
Indentation is at fault exactly in the first line that is badly indented, if the text above it is read. -/
theorem tokenize_indentation (source file : String) :
    (∀ ts, tokenize source file = .ok ts →
      ∀ above rest : List Char, source.toList = above ++ rest → StartsLine above →
        ∀ t ∈ ts, t.kind ≠ .endOfFile → t.location.line = 1 + above.count '\n' →
          (InComment above → t.level = 0) ∧
          (¬ InComment above → IsIndentation (rest.takeWhile isIndent) t.level)) ∧
    ∀ (fault : Fault) (place : Location), fault.ofIndentation →
      (tokenize source file = .error ⟨fault, place⟩ ↔
        ∃ above rest, source.toList = above ++ rest ∧ FirstMisindented above rest fault ∧
          (∃ ts, tokenize (String.ofList above) file = .ok ts) ∧
          place = ⟨file, 1 + above.count '\n', 1⟩) := by
  refine ⟨fun ts hts above rest hcut habove t hmem hkind hline => ⟨fun hinside => ?_, fun houtside => ?_⟩,
    fun fault place hfault => ⟨fun herror => ?_, ?_⟩⟩
  · rw [tokenize, hcut] at hts
    exact Scanner.level_of_inComment habove hinside hts t hmem hkind hline
  · rw [tokenize, hcut] at hts
    exact isIndentation_of_tokens habove houtside hts t hmem hkind hline
  · obtain ⟨above, rest, hcut, hfirst, ⟨ts, hts⟩, rfl⟩ := firstMisindented_of_error hfault herror
    exact ⟨above, rest, hcut, hfirst, ⟨ts, by rw [tokenize, String.toList_ofList, hts]⟩, rfl⟩
  · rintro ⟨above, rest, hcut, hfirst, ⟨ts, hts⟩, rfl⟩
    rw [tokenize, String.toList_ofList] at hts
    rw [tokenize, hcut, tokens_of_firstMisindented hfirst hts]

/-- A line inside of a comment, one below it, and one that is badly indented. -/
theorem tokenize_indentation_comment :
    (∃ ts, tokenize "/* a\n  */ b\n\tc" "" = .ok ts ∧
      (∀ t ∈ ts, t.kind ≠ .endOfFile → t.location.line = 2 → t.level = 0) ∧
      ∀ t ∈ ts, t.kind ≠ .endOfFile → t.location.line = 3 → IsIndentation ['\t'] t.level) ∧
    tokenize "a\n  b" "" = .error ⟨.badIndentation 2, ⟨"", 2, 1⟩⟩ ∧
      ∃ above rest, "a\n  b".toList = above ++ rest ∧
        FirstMisindented above rest (.badIndentation 2) ∧
        (∃ ts, tokenize (String.ofList above) "" = .ok ts) ∧
        (⟨"", 2, 1⟩ : Location) = ⟨"", 1 + above.count '\n', 1⟩ := by
  have hread : ((tokenize "/* a\n  */ b\n\tc" "").map fun _ => ()).toOption = some () := by
    decide +kernel
  have hread' : ((tokenize "/* a\n  */ b\n" "").map fun _ => ()).toOption = some () := by decide +kernel
  obtain ⟨ts, hts, -⟩ := Execution.exists_ok_of_map hread
  obtain ⟨ts', hts', -⟩ := Execution.exists_ok_of_map hread'
  have hlevels := (tokenize_indentation "/* a\n  */ b\n\tc" "").1 ts hts
  have herror : tokenize "a\n  b" "" = .error ⟨.badIndentation 2, ⟨"", 2, 1⟩⟩ := by decide +kernel
  refine ⟨⟨ts, hts, fun t hmem hkind hline => ?_, fun t hmem hkind hline => ?_⟩, herror, ?_⟩
  · have hinside : InComment ['/', '*', ' ', 'a', '\n'] :=
      ⟨[], [' ', 'a', '\n'], rfl, .nil, comment?_eq_none_iff.mp (by decide)⟩
    exact (hlevels ['/', '*', ' ', 'a', '\n'] [' ', ' ', '*', '/', ' ', 'b', '\n', '\t', 'c']
      (by decide +kernel) (startsLine_append_newline ['/', '*', ' ', 'a']) t hmem hkind hline).1 hinside
  · have houtside := not_inComment_of_tokenize hts'
    have hcut : "/* a\n  */ b\n\tc".toList = "/* a\n  */ b\n".toList ++ ['\t', 'c'] := by decide +kernel
    have hstarts : StartsLine "/* a\n  */ b\n".toList := by
      have habove : "/* a\n  */ b\n".toList = "/* a\n  */ b".toList ++ ['\n'] := by decide +kernel
      exact habove ▸ startsLine_append_newline _
    have hcount : "/* a\n  */ b\n".toList.count '\n' = 2 := by decide +kernel
    exact (hlevels _ _ hcut hstarts t hmem hkind (by rw [hline, hcount])).2 houtside
  · exact ((tokenize_indentation "a\n  b" "").2 _ _ rfl).mp herror

end Offside
