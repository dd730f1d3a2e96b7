import Offside.Proofs.BlankLines
import Offside.Proofs.LineLevels
import Offside.Proofs.ReachedPlaces

/-!
# Comments and spaces

A comment that ends in its line is as good as a space for each of its characters. The piece in front of it ends
where it begins, whether a comment or a space stands there, and behind it a scanner is at the same place in the
same state. Only a block comment behind nothing but indentation is no space: the line goes on with it, so that
the indentation counts.
-/

namespace Offside

set_option autoImplicit false

open Lexeme (Forms IsRun opensComment)
open Scanner (Closes Run emptyFrom isBlank levelBehind start)
open Source (isIndent)

/-! ## Texts that begin alike -/

/-- To what stands in front of them the two texts look the same. -/
structure BeginsAlike (rest rest' : List Char) : Prop where
  head : rest'.head? = rest.head?
  opens : opensComment rest' = opensComment rest
  empty : emptyFrom rest' = emptyFrom rest

section BeginsAlike

variable {rest rest' text more : List Char} {c : Char}

theorem beginsAlike_cons (h : rest'.head? = rest.head?) (c : Char) :
    BeginsAlike (c :: rest) (c :: rest') := by
  rcases rest with _ | ⟨d, rest⟩
  · obtain rfl := List.head?_eq_none_iff.mp h
    exact ⟨rfl, rfl, rfl⟩
  · obtain ⟨rest', rfl⟩ := List.head?_eq_some_iff.mp h
    refine ⟨rfl, ?_, ?_⟩
    · unfold opensComment
      split <;> simp_all
    · unfold emptyFrom
      split <;> simp_all

theorem BeginsAlike.append_left (h : BeginsAlike rest rest') (text : List Char) :
    BeginsAlike (text ++ rest) (text ++ rest') := by
  induction text with
  | nil => exact h
  | cons c text ih => exact beginsAlike_cons ih.head c

theorem BeginsAlike.stops {p : Char → Bool} (h : BeginsAlike rest rest') (hstops : Stops p rest) :
    Stops p rest' := by
  intro c hc
  rw [h.head] at hc
  exact hstops c hc

/-- Where a comment is replaced by spaces, it may have been the second character that made one of the first. -/
theorem beginsAlike_comment (hne : more ≠ []) (hslash : more ≠ ['/']) (rest rest' : List Char) :
    BeginsAlike (more ++ '/' :: rest) (more ++ ' ' :: rest') := by
  rcases more with _ | ⟨c, _ | ⟨d, more⟩⟩
  · exact absurd rfl hne
  · have hc : c ≠ '/' := fun hc => hslash (hc ▸ rfl)
    refine ⟨rfl, ?_, ?_⟩
    · unfold opensComment
      split <;> simp_all
    · unfold emptyFrom
      split <;> simp_all
  · have hhead : (d :: more ++ ' ' :: rest').head? = (d :: more ++ '/' :: rest).head? := rfl
    exact beginsAlike_cons hhead c

theorem Lexeme.IsRun.beginsAlike (h : IsRun text rest) (halike : BeginsAlike rest rest') : IsRun text rest' := by
  induction h with
  | stop hstops =>
    refine .stop (hstops.imp halike.stops fun hopens => ?_)
    rw [halike.opens]
    exact hopens
  | more hc hopens _ ih =>
    refine .more hc ?_ (ih halike)
    rw [(beginsAlike_cons (halike.append_left _).head _).opens]
    exact hopens

theorem Lexeme.Forms.beginsAlike {l : Lexeme} (h : Forms text l rest) (halike : BeginsAlike rest rest') :
    Forms text l rest' := by
  cases h with
  | decimal hpos hd =>
    exact .decimal hpos { hd with
      letter := halike.stops hd.letter
      digit := fun hs => halike.stops (hd.digit hs)
      point := fun hf he hs => halike.stops (hd.point hf he hs) }
  | hexadecimal hx hne hd hstops hletter hmax =>
    exact .hexadecimal hx hne hd (halike.stops hstops) (halike.stops hletter) hmax
  | word hc ht hstops => exact .word hc ht (halike.stops hstops)
  | operator hrun => exact .operator (hrun.beginsAlike halike)
  | delimiter hc => exact .delimiter hc
  | string hbody => exact .string hbody
  | character hunit => exact .character hunit

/-- Blanks stand for the same level in front of both. -/
theorem BeginsAlike.levelBehind (h : BeginsAlike rest rest') (hstops : Stops isIndent rest)
    (column level : Nat) (blanks : List Char) :
    levelBehind column level (blanks ++ rest') = levelBehind column level (blanks ++ rest) := by
  unfold Scanner.levelBehind
  rw [takeWhile_append_of_stops hstops, takeWhile_append_of_stops (h.stops hstops),
    dropWhile_append_of_stops hstops, dropWhile_append_of_stops (h.stops hstops),
    (h.append_left (blanks.dropWhile isIndent)).empty]

end BeginsAlike

/-! ## Scanners that read alike -/

/-- Nothing but the texts in front of them sets the two scanners apart. -/
structure Scanner.Abreast (s t : Scanner) : Prop where
  place : t.place = s.place
  level : t.level = s.level
  written : t.written = s.written

/-- Behind `before`, what is read of the one text is read of the other. -/
def SameReading (file : String) (before rest rest' : List Char) : Prop :=
  ∀ ⦃s t : Scanner⦄, s.Steady → s.Abreast t → s.At file before rest → t.At file before rest' →
    t.tokens = s.tokens

namespace Scanner

variable {s s' t t' : Scanner} {file : String} {before text rest rest' : List Char} {read : List Token}

theorem abreast_start (file : String) (source source' : List Char) :
    (start file source).Abreast (start file source') :=
  ⟨rfl, rfl, rfl⟩

theorem Run.steady (h : Run s read s') (hs : s.Steady) : s'.Steady := by
  induction h with
  | refl => exact hs
  | step hrest hp _ ih => exact ih (reads_piece hrest hs hp).steady

theorem Abreast.tokens (h : s.Abreast t) (hs : s.Steady) (hrest : t.cursor.rest = s.cursor.rest) :
    t.tokens = s.tokens := by
  have hfollows : s.Follows 0 [] t :=
    ⟨congrArg Location.file h.place, by rw [hrest, List.append_nil], congrArg Location.line h.place,
      congrArg Location.column h.place, h.written, .inl h.level⟩
  rw [hfollows.tokens hs]
  cases s.tokens with
  | error d => rfl
  | ok ts => simp [Except.map, Except.mapError]

theorem Abreast.endLine (h : s.Abreast t) : t.endLine.1 = s.endLine.1 := by
  unfold Scanner.endLine
  rw [h.written, h.place, h.level]

/-- What stands behind one text stands at one place. -/
theorem At.abreast (hs : s.At file before rest) (ht : t.At file before rest') (hlevel : t.level = s.level)
    (hwritten : t.written = s.written) : s.Abreast t :=
  ⟨ht.place.trans hs.place.symm, hlevel, hwritten⟩

theorem abreast_endLine (hs : s.At file before ('\n' :: rest)) (ht : t.At file before ('\n' :: rest')) :
    s.endLine.2.Abreast t.endLine.2 :=
  hs.endLine.abreast ht.endLine rfl rfl

/-- Both fail for the same indentation. -/
theorem Abreast.tokens_of_levelBehind {fault : Fault} (h : s.Abreast t) (hs : s.At file before rest)
    (ht : t.At file before rest')
    (hfault : Scanner.levelBehind s.cursor.column s.level rest = .error fault)
    (hfault' : Scanner.levelBehind s.cursor.column s.level rest' = .error fault) :
    t.tokens = s.tokens := by
  have hcolumn : t.cursor.column = s.cursor.column := congrArg Location.column h.place
  obtain ⟨hfirst, hmis⟩ := levelBehind_eq_error.mp hfault
  obtain ⟨-, hmis'⟩ := levelBehind_eq_error.mp hfault'
  rw [hs.tokens_of_misindented hfirst hmis, ht.tokens_of_misindented (hcolumn.trans hfirst) hmis']

theorem Abreast.passText (h : s.Abreast t) (hs : s.At file before (text ++ rest))
    (ht : t.At file before (text ++ rest')) :
    (t.passText text).1 = (s.passText text).1 ∧ (s.passText text).2.Abreast (t.passText text).2 := by
  induction text generalizing s t before with
  | nil => exact ⟨rfl, h⟩
  | cons c text ih =>
    by_cases hc : c = '\n'
    · subst hc
      obtain ⟨hmore, habreast⟩ := ih (abreast_endLine hs ht) hs.endLine ht.endLine
      simp only [Scanner.passText, if_true]
      rw [hmore, h.endLine]
      exact ⟨rfl, habreast⟩
    · have hfeed : '\n' ∉ [c] := by simpa using Ne.symm hc
      have hone : s.At file before ([c] ++ (text ++ rest)) := hs
      have hone' : t.At file before ([c] ++ (text ++ rest')) := ht
      have hpass := hone.pass hfeed
      have hpass' := hone'.pass hfeed
      obtain ⟨hmore, habreast⟩ := ih (hpass.abreast hpass' h.level h.written) hpass hpass'
      simp only [Scanner.passText, if_neg hc, List.nil_append]
      exact ⟨hmore, habreast⟩

end Scanner

namespace SameReading

variable {file : String} {before text rest rest' : List Char}

/-- Two scanners that have read the same and stand abreast again. -/
theorem of_run (h : SameReading file before rest rest') {s s' t t' : Scanner} {read : List Token}
    (hs : s.Steady) (hrun : Run s read s') (hrun' : Run t read t') (habreast : s'.Abreast t')
    (hat : s'.At file before rest) (hat' : t'.At file before rest') : t.tokens = s.tokens := by
  rw [hrun.tokens, hrun'.tokens, h (hrun.steady hs) habreast hat hat']

theorem newline (h : SameReading file (before ++ ['\n']) rest rest') :
    SameReading file before ('\n' :: rest) ('\n' :: rest') := by
  intro s t hs habreast hat hat'
  obtain ⟨hrun, hline⟩ := hat.run_feed
  obtain ⟨hrun', hline'⟩ := hat'.run_feed
  rw [habreast.endLine] at hrun'
  exact h.of_run hs hrun hrun' (Scanner.abreast_endLine hat hat') hline.toAt hline'.toAt

theorem word {l : Lexeme} (h : SameReading file (before ++ text) rest rest') (hforms : Forms text l rest)
    (hforms' : Forms text l rest') : SameReading file before (text ++ rest) (text ++ rest') := by
  intro s t hs habreast hat hat'
  obtain ⟨s', hrun, hend, hlevel, hwritten⟩ := hat.run_word hforms
  obtain ⟨t', hrun', hend', hlevel', hwritten'⟩ := hat'.run_word hforms'
  rw [habreast.level] at hrun' hlevel'
  have hboth := hend.abreast hend' (hlevel'.trans hlevel.symm) (hwritten'.trans hwritten.symm)
  exact h.of_run hs hrun hrun' hboth hend hend'

theorem blockComment (h : SameReading file (before ++ '/' :: '*' :: text) rest rest')
    (hcloses : Closes 1 text) :
    SameReading file before ('/' :: '*' :: text ++ rest) ('/' :: '*' :: text ++ rest') := by
  intro s t hs habreast hat hat'
  have hrun : Run s _ _ := .single hat.rest (Scanner.piece_of_step (.blockComment hcloses))
  have hrun' : Run t _ _ := .single hat'.rest (Scanner.piece_of_step (.blockComment hcloses))
  obtain ⟨hread, hend⟩ := habreast.passText hat hat'
  rw [hread] at hrun'
  exact h.of_run hs hrun hrun' hend hat.passText hat'.passText

theorem lineComment (h : SameReading file (before ++ '/' :: '/' :: text) rest rest') (htext : '\n' ∉ text)
    (hstops : Stops (· ≠ '\n') rest) (hstops' : Stops (· ≠ '\n') rest') :
    SameReading file before ('/' :: '/' :: text ++ rest) ('/' :: '/' :: text ++ rest') := by
  intro s t hs habreast hat hat'
  obtain ⟨s', hrun, hend, hlevel, hwritten⟩ := hat.run_lineComment htext hstops
  obtain ⟨t', hrun', hend', hlevel', hwritten'⟩ := hat'.run_lineComment htext hstops'
  rw [habreast.level] at hlevel'
  rw [habreast.written] at hwritten'
  have hboth := hend.abreast hend' (hlevel'.trans hlevel.symm) (hwritten'.trans hwritten.symm)
  exact h.of_run hs hrun hrun' hboth hend hend'

theorem blanks (h : SameReading file (before ++ text) rest rest') (hne : text ≠ [])
    (hall : ∀ c ∈ text, isBlank c) (hstops : Stops isBlank rest) (hstops' : Stops isBlank rest')
    (hlevels : ∀ column level, levelBehind column level (text ++ rest') =
      levelBehind column level (text ++ rest)) :
    SameReading file before (text ++ rest) (text ++ rest') := by
  intro s t hs habreast hat hat'
  have hcolumn : t.cursor.column = s.cursor.column := congrArg Location.column habreast.place
  have hsame := hlevels s.cursor.column s.level
  cases hlevel : levelBehind s.cursor.column s.level (text ++ rest) with
  | error fault =>
    exact habreast.tokens_of_levelBehind hat hat' hlevel (hsame.trans hlevel)
  | ok level =>
    rw [hlevel, ← hcolumn, ← habreast.level] at hsame
    obtain ⟨s', hrun, hend, hlevel, hwritten⟩ := hat.run_blanks hne hall hstops hlevel
    obtain ⟨t', hrun', hend', hlevel', hwritten'⟩ := hat'.run_blanks hne hall hstops' hsame
    rw [habreast.written] at hwritten'
    have hboth := hend.abreast hend' (hlevel'.trans hlevel.symm) (hwritten'.trans hwritten.symm)
    exact h.of_run hs hrun hrun' hboth hend hend'

end SameReading

/-! ## Comments and the spaces in their place -/

/-- A comment that ends in its line, in front of `rest`. -/
inductive IsComment : List Char → List Char → Prop where
  | line {text rest : List Char} : '\n' ∉ text → Stops (· ≠ '\n') rest → IsComment ('/' :: '/' :: text) rest
  | block {text rest : List Char} : Closes 1 text → '\n' ∉ text → IsComment ('/' :: '*' :: text) rest

/-- The line has more than indentation where the text ends. -/
def BehindIndentation (text : List Char) : Prop :=
  ∃ above line, text = above ++ line ∧ '\n' ∉ line ∧ ∃ c ∈ line, isIndent c = false

/-- A space for each character. -/
def spaces (text : List Char) : List Char := text.map fun _ => ' '

section Spaces

variable {file : String} {above blanks comment rest : List Char}

theorem isBlank_of_mem_spaces {text : List Char} : ∀ c ∈ spaces text, isBlank c := by
  intro c hc
  obtain ⟨-, -, rfl⟩ := List.mem_map.mp hc
  rfl

theorem isIndent_of_mem_spaces {text : List Char} : ∀ c ∈ spaces text, isIndent c := by
  intro c hc
  obtain ⟨-, -, rfl⟩ := List.mem_map.mp hc
  rfl

theorem emptyLine_of_stops (h : Stops (· ≠ '\n') rest) : EmptyLine rest := by
  cases rest with
  | nil => exact .inl .none
  | cons c rest =>
    obtain rfl : c = '\n' := by simpa [stops_cons] using h
    exact .inl .feed

/-- If a line begins behind `above`, its blanks are what is more than indentation. -/
theorem BehindIndentation.exists_mem (h : BehindIndentation (above ++ blanks)) (habove : StartsLine above) :
    ∃ c ∈ blanks, isIndent c = false := by
  obtain ⟨above', line, hcut, hline, c, hc, hindent⟩ := h
  rcases List.append_eq_append_iff.mp hcut with ⟨between, rfl, rfl⟩ | ⟨between, rfl, rfl⟩
  · exact ⟨c, List.mem_append_right between hc, hindent⟩
  · cases between with
    | nil => exact ⟨c, hc, hindent⟩
    | cons d between =>
      have hfeed := habove.of_append.newline_mem (List.cons_ne_nil d between)
      exact absurd (List.mem_append_left blanks hfeed) hline

namespace IsComment

theorem newline_not_mem (h : IsComment comment rest) : '\n' ∉ comment := by
  cases h with
  | line htext => simp [htext]
  | block _ htext => simp [htext]

theorem first (h : IsComment comment rest) : ∃ more, comment = '/' :: more := by
  cases h with
  | line => exact ⟨_, rfl⟩
  | block => exact ⟨_, rfl⟩

theorem beginsAlike (h : IsComment comment rest) {more : List Char} (hne : more ≠ [])
    (hslash : more ≠ ['/']) : BeginsAlike (more ++ (comment ++ rest)) (more ++ (spaces comment ++ rest)) := by
  obtain ⟨tail, rfl⟩ := h.first
  exact beginsAlike_comment hne hslash (tail ++ rest) (spaces tail ++ rest)

theorem run (h : IsComment comment rest) {s : Scanner} (hat : s.At file above (comment ++ rest)) :
    ∃ s', Run s [] s' ∧ s'.At file (above ++ comment) rest ∧ s'.level = s.level ∧ s'.written = s.written := by
  cases h with
  | line htext hstops => exact hat.run_lineComment htext hstops
  | block hcloses htext => exact hat.run_blockComment hcloses htext

/-- The spaces stand for the same level as the comment: none, if the line ends with it or has begun before. -/
theorem levelBehind (h : IsComment comment rest) (hall : ∀ c ∈ blanks, isBlank c)
    (hbehind : ['/', '*'] <+: comment → BehindIndentation (above ++ blanks)) (level : Nat) :
    levelBehind (placeAfter file above).column level (blanks ++ (spaces comment ++ rest)) =
      levelBehind (placeAfter file above).column level (blanks ++ (comment ++ rest)) := by
  by_cases hcolumn : (placeAfter file above).column = 1
  · by_cases hindent : ∀ c ∈ blanks, isIndent c
    · cases h with
      | @line text _ htext hstops =>
        have hend : EmptyLine ((blanks ++ ('/' :: '/' :: text ++ rest)).dropWhile isIndent) := by
          rw [List.dropWhile_append_of_pos hindent]
          exact .inr ⟨text ++ rest, rfl⟩
        have hend' : EmptyLine ((blanks ++ (spaces ('/' :: '/' :: text) ++ rest)).dropWhile isIndent) := by
          rw [List.dropWhile_append_of_pos hindent, List.dropWhile_append_of_pos isIndent_of_mem_spaces,
            dropWhile_of_stops (hstops.of_newline (by decide))]
          exact emptyLine_of_stops hstops
        rw [Scanner.levelBehind_of_empty hend, Scanner.levelBehind_of_empty hend']
      | @block text =>
        obtain ⟨c, hc, hnot⟩ := (hbehind ⟨text, rfl⟩).exists_mem (startsLine_of_column hcolumn)
        simp [hindent c hc] at hnot
    · have hcut : blanks.takeWhile isIndent ++ blanks.dropWhile isIndent = blanks :=
        List.takeWhile_append_dropWhile
      have hne : blanks.dropWhile isIndent ≠ [] := fun hnil =>
        hindent fun c hc => List.dropWhile_eq_nil_iff.mp hnil c hc
      have hslash : blanks.dropWhile isIndent ≠ ['/'] := fun heq =>
        absurd (hall '/' (hcut ▸ by simp [heq])) (by decide)
      have hstops : Stops isIndent (blanks.dropWhile isIndent ++ (comment ++ rest)) :=
        Stops.append (stops_dropWhile isIndent blanks) fun hnil => absurd hnil hne
      have hlevel := (h.beginsAlike hne hslash).levelBehind hstops (placeAfter file above).column level
        (blanks.takeWhile isIndent)
      simp only [← List.append_assoc, hcut] at hlevel ⊢
      exact hlevel
  · rw [Scanner.levelBehind_of_stops fun heq => absurd heq hcolumn,
      Scanner.levelBehind_of_stops fun heq => absurd heq hcolumn]

end IsComment

theorem newline_not_mem_spaces (text : List Char) : '\n' ∉ spaces text :=
  not_mem_of_forall (by decide) isBlank_of_mem_spaces

/-- Texts of one length that stay in their line lead to one place. -/
theorem placeAfter_congr {text text' : List Char} (hline : '\n' ∉ text) (hline' : '\n' ∉ text')
    (hlength : text'.length = text.length) (file : String) (before : List Char) :
    placeAfter file (before ++ text') = placeAfter file (before ++ text) := by
  rw [placeAfter_append file before hline, placeAfter_append file before hline', hlength]

theorem IsComment.placeAfter_spaces {passed : List Char} (h : IsComment comment rest)
    (hblanks : ∀ c ∈ blanks, isBlank c) (hpassed : ∀ c ∈ passed, isBlank c) :
    placeAfter file (above ++ (blanks ++ (spaces comment ++ passed))) =
      placeAfter file (above ++ (blanks ++ (comment ++ passed))) := by
  have hfront : '\n' ∉ blanks := not_mem_of_forall (by decide) hblanks
  have hback : '\n' ∉ passed := not_mem_of_forall (by decide) hpassed
  apply placeAfter_congr
  · simp [hfront, hback, h.newline_not_mem]
  · simp [hfront, hback, newline_not_mem_spaces]
  · simp [spaces]

/-- Blanks are passed over, if there are any. -/
theorem Scanner.At.run_anyBlanks {s : Scanner} {level : Nat} (h : s.At file above (blanks ++ rest))
    (hall : ∀ c ∈ blanks, isBlank c) (hstops : Stops isBlank rest)
    (hlevel : Scanner.levelBehind s.cursor.column s.level (blanks ++ rest) = .ok level) :
    ∃ s', Run s [] s' ∧ s'.At file (above ++ blanks) rest ∧ s'.level = level ∧ s'.written = s.written := by
  cases blanks with
  | nil =>
    have hindent : Stops isIndent rest := hstops.mono fun _ => isBlank_of_isIndent
    rw [List.nil_append, levelBehind_of_stops fun _ => hindent, Except.ok.injEq] at hlevel
    exact ⟨s, .refl s, by rwa [List.append_nil], hlevel, rfl⟩
  | cons c blanks => exact h.run_blanks (List.cons_ne_nil c blanks) hall hstops hlevel

/-- A scanner gets past the comment and the blanks on both sides of it. -/
theorem IsComment.run_past {passed ahead : List Char} (h : IsComment comment (passed ++ ahead)) {s : Scanner}
    {level : Nat} (hat : s.At file above (blanks ++ (comment ++ (passed ++ ahead))))
    (hblanks : ∀ c ∈ blanks, isBlank c) (hpassed : ∀ c ∈ passed, isBlank c) (hahead : Stops isBlank ahead)
    (hlevel : Scanner.levelBehind s.cursor.column s.level (blanks ++ (comment ++ (passed ++ ahead))) =
      .ok level) :
    ∃ s', Run s [] s' ∧ s'.At file (above ++ (blanks ++ (comment ++ passed))) ahead ∧ s'.level = level ∧
      s'.written = s.written := by
  obtain ⟨more, hfirst⟩ := h.first
  have hstops : Stops isBlank (comment ++ (passed ++ ahead)) := hfirst ▸ stops_cons.mpr (by decide)
  obtain ⟨s₁, hrun₁, hat₁, hlevel₁, hwritten₁⟩ := hat.run_anyBlanks hblanks hstops hlevel
  obtain ⟨s₂, hrun₂, hat₂, hlevel₂, hwritten₂⟩ := h.run hat₁
  have hcolumn : s₂.cursor.column ≠ 1 := hat₂.column_ne (hfirst ▸ List.cons_ne_nil _ _) h.newline_not_mem
  have hkept : Scanner.levelBehind s₂.cursor.column s₂.level (passed ++ ahead) = .ok s₂.level :=
    Scanner.levelBehind_of_stops fun heq => absurd heq hcolumn
  obtain ⟨s₃, hrun₃, hat₃, hlevel₃, hwritten₃⟩ := hat₂.run_anyBlanks hpassed hahead hkept
  simp only [List.append_assoc] at hat₃
  exact ⟨s₃, (hrun₁.trans hrun₂).trans hrun₃, hat₃, hlevel₃.trans (hlevel₂.trans hlevel₁),
    hwritten₃.trans (hwritten₂.trans hwritten₁)⟩

/-- The comment and its spaces are read alike, whatever blanks stand in front. -/
theorem IsComment.sameReading (h : IsComment comment rest) (hall : ∀ c ∈ blanks, isBlank c)
    (hbehind : ['/', '*'] <+: comment → BehindIndentation (above ++ blanks)) :
    SameReading file above (blanks ++ (comment ++ rest)) (blanks ++ (spaces comment ++ rest)) := by
  intro s t hs habreast hat hat'
  have hcolumn : t.cursor.column = s.cursor.column := congrArg Location.column habreast.place
  have hsame := @levelBehind file _ _ _ _ h hall hbehind s.level
  rw [← hat.column] at hsame
  cases hlevel : Scanner.levelBehind s.cursor.column s.level (blanks ++ (comment ++ rest)) with
  | error fault =>
    exact habreast.tokens_of_levelBehind hat hat' hlevel (hsame.trans hlevel)
  | ok level =>
    -- The blanks behind the comment are a piece of their own; behind its spaces they are one piece with them.
    obtain ⟨passed, ahead, rfl, hpassed, hahead⟩ :
        ∃ passed ahead, rest = passed ++ ahead ∧ (∀ c ∈ passed, isBlank c) ∧ Stops isBlank ahead :=
      ⟨_, _, List.takeWhile_append_dropWhile.symm, fun c hc => mem_takeWhile hc, stops_dropWhile isBlank rest⟩
    have hspaces : ∀ c ∈ blanks ++ (spaces comment ++ passed), isBlank c :=
      List.forall_mem_append.mpr ⟨hall, List.forall_mem_append.mpr ⟨isBlank_of_mem_spaces, hpassed⟩⟩
    have hcut : blanks ++ (spaces comment ++ (passed ++ ahead)) =
        blanks ++ (spaces comment ++ passed) ++ ahead := by
      simp only [List.append_assoc]
    rw [hlevel, ← hcolumn, ← habreast.level, hcut] at hsame
    rw [hcut] at hat'
    obtain ⟨s', hrun, hend, hlevel, hwritten⟩ := h.run_past hat hall hpassed hahead hlevel
    obtain ⟨t', hrun', hend', hlevel', hwritten'⟩ := hat'.run_anyBlanks hspaces hahead hsame
    have hplace : t'.place = s'.place := by
      rw [hend'.place, hend.place, h.placeAfter_spaces hall hpassed]
    have habreast' : s'.Abreast t' :=
      ⟨hplace, hlevel'.trans hlevel.symm, hwritten'.trans (habreast.written.trans hwritten.symm)⟩
    rw [hrun.tokens, hrun'.tokens, habreast'.tokens (hrun.steady hs) (hend'.rest.trans hend.rest.symm)]

end Spaces

/-! ## What stands in front of a comment -/

section Parted

variable {file : String} {above before comment rest : List Char}

/-- A slash in front of a comment would begin the comment itself. -/
theorem Parted.ne_slash (h : Parted before (comment ++ rest)) (hcomment : IsComment comment rest) :
    before ≠ ['/'] := by
  obtain ⟨tail, rfl⟩ := hcomment.first
  cases h with
  | nil => exact (List.cons_ne_nil _ _).symm
  | @cons text more _ hpiece =>
    intro heq
    obtain ⟨c, text', rfl⟩ := List.exists_cons_of_ne_nil hpiece.ne_nil
    obtain ⟨rfl, htail⟩ := List.cons.inj heq
    obtain ⟨rfl, rfl⟩ := List.append_eq_nil_iff.mp htail
    cases hpiece with
    | blanks _ hall => exact absurd (hall '/' List.mem_cons_self) (by decide)
    | word hforms =>
      obtain ⟨-, -, -, -, hopens⟩ := hforms.first
      cases hopens

/-- A piece is read alike in front of texts that begin alike. -/
theorem IsPiece.sameReading {text rest' : List Char} (h : IsPiece text rest) (halike : BeginsAlike rest rest')
    (hnext : SameReading file (above ++ text) rest rest') :
    SameReading file above (text ++ rest) (text ++ rest') := by
  cases h with
  | blanks hne hall hstops =>
    have hindent : Stops isIndent rest := hstops.mono fun _ => Scanner.isBlank_of_isIndent
    exact hnext.blanks hne hall hstops (halike.stops hstops) fun column level =>
      halike.levelBehind hindent column level text
  | newline => exact hnext.newline
  | lineComment hline hstops => exact hnext.lineComment hline hstops (halike.stops hstops)
  | blockComment hcloses => exact hnext.blockComment hcloses
  | word hforms => exact hnext.word hforms (hforms.beginsAlike halike)

/-- A piece that ends where the comment begins; blanks are one piece with the spaces. -/
theorem IsPiece.sameReading_comment {text : List Char} (h : IsPiece text (comment ++ rest))
    (hcomment : IsComment comment rest) (hbehind : ['/', '*'] <+: comment → BehindIndentation (above ++ text)) :
    SameReading file above (text ++ (comment ++ rest)) (text ++ (spaces comment ++ rest)) := by
  have hnext : SameReading file (above ++ text) ([] ++ (comment ++ rest)) ([] ++ (spaces comment ++ rest)) :=
    hcomment.sameReading (List.forall_mem_nil _) (by rwa [List.append_nil])
  obtain ⟨tail, hfirst⟩ := hcomment.first
  cases h with
  | blanks _ hall => exact hcomment.sameReading hall hbehind
  | newline => exact hnext.newline
  | lineComment _ hstops =>
    rw [hfirst, List.cons_append, stops_cons] at hstops
    cases hstops
  | blockComment hcloses => exact hnext.blockComment hcloses
  | word hforms =>
    have hbreaks : Breaks (spaces comment ++ rest) := by
      rw [hfirst]
      rintro _ ⟨⟩
      decide
    exact hnext.word hforms (hforms.replace (.inl hbreaks))

/-- Pieces in front of a comment are read alike in front of its spaces. -/
theorem Parted.sameReading (h : Parted before (comment ++ rest)) (hcomment : IsComment comment rest)
    (hbehind : ['/', '*'] <+: comment → BehindIndentation (above ++ before)) :
    SameReading file above (before ++ (comment ++ rest)) (before ++ (spaces comment ++ rest)) := by
  generalize hbelow : comment ++ rest = below at h
  induction h generalizing above with
  | nil =>
    subst hbelow
    exact hcomment.sameReading (List.forall_mem_nil _) hbehind
  | @cons text more _ hpiece hparted ih =>
    subst hbelow
    rw [List.append_assoc, List.append_assoc]
    by_cases hmore : more = []
    · subst hmore
      rw [List.append_nil] at hbehind
      rw [List.nil_append] at hpiece ⊢
      exact hpiece.sameReading_comment hcomment hbehind
    · have halike := hcomment.beginsAlike hmore (hparted.ne_slash hcomment)
      rw [← List.append_assoc] at hbehind
      exact hpiece.sameReading halike (ih hbehind rfl)

end Parted

/-! ## Whole texts -/

/-- A comment that is not closed is found where it begins. -/
theorem unclosedComment_iff {source file : String} {place : Location} :
    tokenize source file = .error ⟨.unclosedComment, place⟩ ↔
      ∃ before inner, Reaches file source.toList before ('/' :: '*' :: inner) ∧
        (∀ closed, closed <+: inner → ¬ Closes 1 closed) ∧ place = placeAfter file before := by
  constructor
  · intro h
    obtain ⟨before, c, cs, s, hreaches, -, hfails, hplace⟩ := exists_reaches_of_error h
    cases hfails with
    | comment hcomment => exact ⟨before, _, hreaches, comment?_eq_none_iff.mp hcomment, hplace⟩
    | lexeme _ _ hnext => cases Lexeme.ofWord_next hnext
    | indentation _ _ hmis => cases hmis.misindents.ofIndentation
  · rintro ⟨before, inner, hreaches, hopen, rfl⟩
    obtain ⟨s, -, hfails⟩ := hreaches.fails_iff
    exact (hfails _).mpr (.comment (comment?_eq_none_iff.mpr hopen))

/-- A comment to the end of its line may be spaces instead, and so may a block comment in a line if it is behind
more than indentation: the tokens and their places stay the same, and so does a fault. Only a block comment that
is reached and has no end makes a text fail for a comment, at the place where it begins. -/
theorem tokenize_comments (file : String) :
    (∀ before comment rest, Parted before (comment ++ rest) → IsComment comment rest →
      (['/', '*'] <+: comment → BehindIndentation before) →
      tokenize (String.ofList (before ++ comment ++ rest)) file =
        tokenize (String.ofList (before ++ spaces comment ++ rest)) file) ∧
    ∀ source place, tokenize source file = .error ⟨.unclosedComment, place⟩ ↔
      ∃ before inner, Reaches file source.toList before ('/' :: '*' :: inner) ∧
        (∀ closed, closed <+: inner → ¬ Closes 1 closed) ∧ place = placeAfter file before := by
  refine ⟨fun before comment rest hparted hcomment hbehind => ?_, fun source place => unclosedComment_iff⟩
  have hsame : SameReading file [] (before ++ (comment ++ rest)) (before ++ (spaces comment ++ rest)) :=
    hparted.sameReading hcomment hbehind
  have hread := hsame (Scanner.steady_start ..) (Scanner.abreast_start ..) (Scanner.at_start ..)
    (Scanner.at_start ..)
  unfold tokenize
  rw [String.toList_ofList, String.toList_ofList, List.append_assoc, List.append_assoc, hread]

/-- A comment with a quote in it, right behind an operator, and one that is opened twice and closed once. -/
theorem tokenize_comments_operator :
    Parted ['a', '+'] (['/', '*', '"', '*', '/'] ++ ['1']) ∧ IsComment ['/', '*', '"', '*', '/'] ['1'] ∧
      BehindIndentation ['a', '+'] ∧
      tokenize (String.ofList (['a', '+'] ++ ['/', '*', '"', '*', '/'] ++ ['1'])) "" =
        tokenize (String.ofList (['a', '+'] ++ spaces ['/', '*', '"', '*', '/'] ++ ['1'])) "" ∧
      tokenize "a /* /* b */" "" = .error ⟨.unclosedComment, ⟨"", 1, 3⟩⟩ ∧
      ∃ before inner, Reaches "" "a /* /* b */".toList before ('/' :: '*' :: inner) ∧
        (∀ closed, closed <+: inner → ¬ Closes 1 closed) ∧ ⟨"", 1, 3⟩ = placeAfter "" before := by
  have hidentifier : IsPiece ['a'] (['+'] ++ ['/', '*', '"', '*', '/', '1']) :=
    .word (.word rfl nofun (stops_cons.mpr (by decide)))
  have hoperator : IsPiece ['+'] ([] ++ ['/', '*', '"', '*', '/', '1']) :=
    .word (.operator (.more rfl rfl (.stop (.inr rfl))))
  have hparted : Parted ['a', '+'] ['/', '*', '"', '*', '/', '1'] := .cons hidentifier (.cons hoperator .nil)
  have hcomment : IsComment ['/', '*', '"', '*', '/'] ['1'] :=
    .block (.other (by decide) (by decide) .last) (by decide)
  have hbehind : BehindIndentation ['a', '+'] := ⟨[], ['a', '+'], rfl, by decide, 'a', by decide, rfl⟩
  have hopen : tokenize "a /* /* b */" "" = .error ⟨.unclosedComment, ⟨"", 1, 3⟩⟩ := by decide +kernel
  exact ⟨hparted, hcomment, hbehind,
    (tokenize_comments "").1 ['a', '+'] _ ['1'] hparted hcomment fun _ => hbehind,
    hopen, ((tokenize_comments "").2 _ _).mp hopen⟩

end Offside
