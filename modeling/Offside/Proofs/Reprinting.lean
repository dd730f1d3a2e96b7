import Offside.Proofs.SourceSpans

/-!
# Tokens put back into text

Tokens have one plain text: four spaces for each level in front of a line, one space between its words, a
line feed behind it. Read again, that text has the same tokens.
-/

namespace Offside

set_option autoImplicit false

open Source (Cursor isIndent)

namespace Token

/-- The text of a token, with its quotes put back if it has any. -/
def spelling (t : Token) : List Char :=
  if t.kind = .literal ∧ t.type = some .string then '"' :: t.text.toList ++ ['"']
  else if t.kind = .literal ∧ t.type = some .char then '\'' :: t.text.toList ++ ['\'']
  else t.text.toList

/-- What a token says, wherever it stands. An end of statement says nothing but that it is one. -/
def content (t : Token) : Kind × String × Nat × Option DataType × Option Keyword :=
  (t.kind, if t.kind = .endOfStatement then "" else t.text, t.level, t.type, t.keyword)

end Token

/-- The plain text of tokens; `begun` says whether their first line has a word in front of them. -/
def printed : Bool → List Token → List Char
  | _, [] => []
  | begun, t :: ts =>
    if t.kind = .endOfStatement then '\n' :: printed false ts
    else
      (if begun then [' '] else List.replicate (indentWidth * t.level) ' ') ++ t.spelling ++
        printed true ts

/-- The token of a lexeme whose text may stand in front of any break. -/
def Respelled (t : Token) : Prop :=
  ∃ l : Lexeme, t = l.token t.location t.level ∧
    ∀ rest, Breaks rest → Lexeme.Forms t.spelling l rest

/-- A token that is read again from its plain text. -/
inductive Token.Printable : Token → Prop where
  | word {t : Token} : Respelled t → Printable t
  | stop {text : String} {place : Location} {level : Nat} :
      Printable (plain .endOfStatement text place level)
  | done {place : Location} : Printable (endAt place)

namespace Lexeme

theorem toDigits_isDecimal {n : Nat} {rest : List Char} (h : Breaks rest) :
    IsDecimal (Nat.toDigits 10 n) [] [] [] rest where
  whole_ne := Nat.toDigits_ne_nil
  isWhole _ hc := Nat.isDigit_of_mem_toDigits (by decide) (by decide) hc
  isFraction := .none
  isExponent := .none
  isSuffix := .none
  letter := h.stops (by decide)
  digit _ := h.stops (by decide)
  point _ _ _ := h.stops (by decide)

theorem spelling_plain {l : Lexeme} {place : Location} {level : Nat}
    (h : l.type ≠ some .string ∧ l.type ≠ some .char) :
    (l.token place level).spelling = l.text := by
  unfold Token.spelling
  rw [if_neg (fun hs => h.1 hs.2), if_neg (fun hc => h.2 hc.2)]
  exact String.toList_ofList

theorem spelling_string {l : Lexeme} {place : Location} {level : Nat} (hk : l.kind = .literal)
    (ht : l.type = some .string) : (l.token place level).spelling = '"' :: l.text ++ ['"'] := by
  unfold Token.spelling
  rw [if_pos ⟨hk, ht⟩]
  exact congrArg (fun text => '"' :: text ++ ['"']) String.toList_ofList

theorem spelling_char {l : Lexeme} {place : Location} {level : Nat} (hk : l.kind = .literal)
    (ht : l.type = some .char) : (l.token place level).spelling = '\'' :: l.text ++ ['\''] := by
  unfold Token.spelling
  rw [if_neg (fun hs => absurd (ht.symm.trans hs.2) (by decide)), if_pos ⟨hk, ht⟩]
  exact congrArg (fun text => '\'' :: text ++ ['\'']) String.toList_ofList

theorem type_word (c : Char) (cs : List Char) :
    (word c cs).type ≠ some .string ∧ (word c cs).type ≠ some .char := by
  unfold word
  simp only
  split
  · simp
  · split <;> simp

/-- A hexadecimal number is spelled in decimal; every other lexeme is spelled as it was. -/
theorem Forms.respelled {span rest : List Char} {l : Lexeme} (h : Forms span l rest)
    (place : Location) (level : Nat) : Respelled (l.token place level) := by
  have hsame : ∀ tail, Breaks tail → Forms span l tail := by
    intro tail ht
    exact h.replace (.inl ht)
  cases h with
  | decimal hpos =>
    refine ⟨_, rfl, ?_⟩
    rw [spelling_plain]
    · exact hsame
    · simp only [numberType]
      split
      · simp
      · split <;> simp
  | @hexadecimal x digits =>
    have hpos : 0 < (Nat.toDigits 10 (Numeral.value 16 digits) ++ [] ++ [] ++ []).length := by
      simpa using List.length_pos_iff.mpr Nat.toDigits_ne_nil
    refine ⟨⟨_, .literal, Nat.toDigits 10 (Numeral.value 16 digits), some .int, none, hpos⟩,
      rfl, ?_⟩
    rw [spelling_plain (by simp)]
    intro tail ht
    have hforms := Forms.decimal hpos (toDigits_isDecimal ht)
    simpa [numberType] using hforms
  | @word c text rest hc ht hstop =>
    refine ⟨_, rfl, ?_⟩
    rw [spelling_plain (type_word c text), text_word, takeWhile_of_forall ht]
    exact hsame
  | operator =>
    refine ⟨_, rfl, ?_⟩
    rw [spelling_plain (by simp)]
    exact hsame
  | delimiter =>
    refine ⟨_, rfl, ?_⟩
    rw [spelling_plain (by simp [Lexeme.delimiter])]
    exact hsame
  | string =>
    refine ⟨_, rfl, ?_⟩
    rw [spelling_string rfl rfl]
    exact hsame
  | character =>
    refine ⟨_, rfl, ?_⟩
    rw [spelling_char rfl rfl]
    exact hsame

end Lexeme

theorem Token.IsRead.printable {t : Token} (h : t.IsRead) : t.Printable := by
  cases h with
  | stop hstop =>
    obtain ⟨place, level, rfl⟩ := hstop
    exact .stop
  | @word span rest l place level hforms => exact .word (hforms.respelled place level)

theorem Respelled.sound {t : Token} (h : Respelled t) : ∃ l : Lexeme, l.kind = t.kind ∧ l.Sound := by
  obtain ⟨l, heq, hforms⟩ := h
  exact ⟨l, by rw [heq]; rfl, (hforms [] nofun).sound⟩

theorem Respelled.first {t : Token} (h : Respelled t) {rest : List Char} (hb : Breaks rest) :
    ∃ c more, t.spelling ++ rest = c :: more ∧ c ∉ breaks ∧
      Lexeme.opensComment (c :: more) = false := by
  obtain ⟨l, -, hforms⟩ := h
  obtain ⟨c, more, hspelling, hc, ho⟩ := (hforms rest hb).first
  rw [hspelling] at ho ⊢
  exact ⟨c, more ++ rest, rfl, hc, ho⟩

theorem Token.Printable.respelled {t : Token} (h : t.Printable) (hw : t.endsStatement = false) :
    Respelled t := by
  cases h with
  | word ht => exact ht
  | stop => simp [Token.endsStatement, Token.plain] at hw
  | done => simp [Token.endsStatement, Token.endAt, Token.plain] at hw

namespace Scanner

variable {s s' : Scanner}

theorem printable_finish (s : Scanner) : ∀ t ∈ s.finish, t.Printable := by
  unfold finish
  cases s.written with
  | false => exact List.forall_mem_singleton.mpr .done
  | true => exact List.forall_mem_cons.mpr ⟨.stop, List.forall_mem_singleton.mpr .done⟩

theorem printable_tokens {s : Scanner} {ts : List Token} (h : s.tokens = .ok ts) :
    ∀ t ∈ ts, t.Printable := by
  obtain ⟨read, s', hrun, -, rfl⟩ := tokens_eq_ok.mp h
  intro t ht
  rcases List.mem_append.mp ht with ht | ht
  · exact (isRead_run hrun t ht).printable
  · exact printable_finish s' t ht

/-! ## Reading the plain text -/

/-- Spaces in front of a word are one piece, which may set the level. -/
theorem run_spaces {s : Scanner} {n level : Nat} {c : Char} {rest : List Char} (hs : s.Steady)
    (hrest : s.cursor.rest = List.replicate (n + 1) ' ' ++ c :: rest) (hc : c ∉ breaks)
    (hl : levelBehind s.cursor.column s.level s.cursor.rest = .ok level) :
    ∃ s', Run s [] s' ∧ s'.Steady ∧ s'.cursor.rest = c :: rest ∧ s'.written = s.written ∧
      s'.level = level := by
  have hblank : ∀ d ∈ List.replicate (n + 1) ' ', isBlank d := by
    intro d hd
    rw [List.eq_of_mem_replicate hd]
    decide
  have hstop : Stops isBlank (c :: rest) := by
    apply stops_cons.mpr
    simp only [breaks, List.mem_cons, not_or] at hc
    simp [isBlank, hc]
  have hb := blanks_eq_ok.mpr ⟨level, hl, rfl⟩
  rw [hrest, takeWhile_append_stops hblank hstop] at hb
  have hp := piece_of_step (@Step.blanks s ' ' (List.replicate n ' ' ++ c :: rest) _ (by decide) hb)
  refine ⟨_, Run.single hrest hp, (reads_piece hrest hs hp).steady, ?_, rfl, rfl⟩
  simp only [rest_pass, hrest]
  rw [List.drop_left]

theorem levelOf_spaces {level : Nat} (h : level ≠ 0) :
    levelOf (List.replicate (indentWidth * level) ' ') = .ok level := by
  have htabs : (List.replicate (indentWidth * level) ' ').count '\t' = 0 :=
    List.count_eq_zero_of_not_mem fun hmem => absurd (List.eq_of_mem_replicate hmem) (by decide)
  have hpos : 0 < indentWidth * level := Nat.mul_pos (by decide) (Nat.pos_of_ne_zero h)
  have hmod : indentWidth * level % indentWidth = 0 := Nat.mul_mod_right _ _
  have hdiv : indentWidth * level / indentWidth = level := Nat.mul_div_cancel_left _ (by decide)
  unfold levelOf
  rw [List.count_replicate_self, htabs, if_neg (fun hboth => absurd hboth.2 (by decide)),
    if_neg (fun hne => hne hmod), if_pos hpos, hdiv]

theorem run_indent {s : Scanner} {level : Nat} {c : Char} {rest : List Char} (hs : s.Steady)
    (hcolumn : s.cursor.column = 1) (hlevel : s.level = 0)
    (hrest : s.cursor.rest = List.replicate (indentWidth * level) ' ' ++ c :: rest)
    (hc : c ∉ breaks) (ho : Lexeme.opensComment (c :: rest) = false) :
    ∃ s', Run s [] s' ∧ s'.Steady ∧ s'.cursor.rest = c :: rest ∧ s'.written = s.written ∧
      s'.level = level := by
  by_cases hzero : level = 0
  · subst hzero
    exact ⟨s, .refl s, hs, hrest, rfl, hlevel⟩
  · have hindent : ∀ d ∈ List.replicate (indentWidth * level) ' ', isIndent d := by
      intro d hd
      rw [List.eq_of_mem_replicate hd]
      decide
    have hstop : Stops isIndent (c :: rest) := by
      apply stops_cons.mpr
      simp only [breaks, List.mem_cons, not_or] at hc
      simp [isIndent, hc]
    have hempty : emptyFrom (c :: rest) = false := by
      unfold emptyFrom
      split <;> simp_all [breaks, Lexeme.opensComment]
    obtain ⟨n, hn⟩ : ∃ n, indentWidth * level = n + 1 := by
      refine ⟨indentWidth * level - 1, ?_⟩
      simp only [indentWidth]
      omega
    have hl : levelBehind s.cursor.column s.level s.cursor.rest = .ok level := by
      unfold levelBehind
      rw [hrest, takeWhile_append_stops hindent hstop, dropWhile_append_stops hindent hstop,
        if_pos, levelOf_spaces hzero]
      exact ⟨hcolumn, by simp [hn], by simp [hempty]⟩
    rw [hn] at hrest
    exact run_spaces hs hrest hc hl

theorem run_space {s : Scanner} {c : Char} {rest : List Char} (hs : s.Steady)
    (hw : s.written = true) (hrest : s.cursor.rest = ' ' :: c :: rest) (hc : c ∉ breaks) :
    ∃ s', Run s [] s' ∧ s'.Steady ∧ s'.cursor.rest = c :: rest ∧ s'.written = s.written ∧
      s'.level = s.level := by
  have hl : levelBehind s.cursor.column s.level s.cursor.rest = .ok s.level := by
    unfold levelBehind
    exact if_neg fun hif => hs.column_ne hw hif.1
  exact run_spaces (n := 0) hs hrest hc hl

/-- A word is read from its plain text. -/
theorem run_word {s : Scanner} {t : Token} {rest : List Char} (hs : s.Steady)
    (hlevel : s.level = t.level) (ht : Respelled t) (hrest : s.cursor.rest = t.spelling ++ rest)
    (hbreaks : Breaks rest) :
    ∃ u s', Run s [u] s' ∧ u.content = t.content ∧ s'.Steady ∧ s'.cursor.rest = rest ∧
      s'.written = true ∧ s'.level = t.level := by
  obtain ⟨l, heq, hforms⟩ := ht
  obtain ⟨c, more, hspelling, -, -⟩ := (hforms rest hbreaks).first
  have hcs : c :: (more ++ rest) = t.spelling ++ rest := by rw [hspelling, List.cons_append]
  have hp := piece_of_forms (hforms rest hbreaks) hcs s
  have hrest' := hrest.trans hcs.symm
  refine ⟨_, _, Run.single hrest' hp, ?_, (reads_piece hrest' hs hp).steady, ?_, rfl, hlevel⟩
  · rw [heq, hlevel]
    rfl
  · simp only [rest_pass, hrest, (hforms rest hbreaks).size_eq, List.drop_left]

theorem printed_word {t : Token} (h : IsWord t) (begun : Bool) (ts : List Token) :
    printed begun (t :: ts) =
      (if begun then [' '] else List.replicate (indentWidth * t.level) ' ') ++ t.spelling ++
        printed true ts := by
  have hk : t.kind ≠ .endOfStatement := by
    intro hk
    have hends := h.not_endsStatement
    simp [Token.endsStatement, hk] at hends
  exact if_neg hk

theorem line?_eq_some {s : Scanner} {level : Nat} :
    s.line? = some level ↔ s.written = true ∧ s.level = level := by
  unfold line?
  cases s.written <;> simp

/-- The scanner reads tokens that say the same. -/
def Rereads (s : Scanner) (ts : List Token) : Prop :=
  ∃ us, s.tokens = .ok us ∧ us.map Token.content = ts.map Token.content

theorem Run.rereads {s s' : Scanner} {read ts more : List Token} (hrun : Run s read s')
    (hread : read.map Token.content = ts.map Token.content) (h : s'.Rereads more) :
    s.Rereads (ts ++ more) := by
  obtain ⟨us, hus, hcontent⟩ := h
  refine ⟨read ++ us, ?_, ?_⟩
  · rw [hrun.tokens, hus]
    rfl
  · rw [List.map_append, List.map_append, hread, hcontent]

theorem Run.rereads_nil {s s' : Scanner} {ts : List Token} (hrun : Run s [] s')
    (h : s'.Rereads ts) : s.Rereads ts := by
  obtain ⟨us, hus, hcontent⟩ := h
  refine ⟨us, ?_, hcontent⟩
  rw [hrun.tokens, hus]
  rfl

theorem breaks_printed (ts : List Token) : Breaks (printed true ts) := by
  intro c hc
  cases ts with
  | nil => simp [printed] at hc
  | cons t ts =>
    simp only [printed, if_true] at hc
    split at hc
    · obtain rfl : '\n' = c := by simpa using hc
      decide
    · obtain rfl : ' ' = c := by simpa using hc
      decide

theorem rereads_word {s : Scanner} {t : Token} {ts : List Token} (hs : s.Steady)
    (hlevel : s.level = t.level) (ht : Respelled t)
    (hrest : s.cursor.rest = t.spelling ++ printed true ts)
    (h : ∀ {s' : Scanner}, s'.Steady → s'.line? = some t.level →
      s'.cursor.rest = printed true ts → s'.Rereads ts) :
    s.Rereads (t :: ts) := by
  obtain ⟨u, s', hrun, hcontent, hs', hrest', hw, hlevel'⟩ :=
    run_word hs hlevel ht hrest (breaks_printed ts)
  have hline : s'.line? = some t.level := by rw [line?, hw, hlevel', if_pos rfl]
  have hread : [u].map Token.content = [t].map Token.content := by simp [hcontent]
  exact hrun.rereads hread (h hs' hline hrest')

/-- The plain text of a scanner's tokens is read as those tokens. -/
theorem rereads_printed {line : Option Nat} {ts : List Token} (h : Lined line ts)
    (hp : ∀ t ∈ ts, t.Printable) {s : Scanner} (hs : s.Steady) (hline : s.line? = line)
    (hrest : s.cursor.rest = printed line.isSome ts)
    (hstart : line = none → s.cursor.column = 1 ∧ s.level = 0) : s.Rereads ts := by
  induction h generalizing s with
  | @done t hk hkeyword hlevel =>
    have hw : s.written = false := by
      cases hw : s.written with
      | false => rfl
      | true => simp [line?, hw] at hline
    cases hp t List.mem_cons_self with
    | word ht =>
      obtain ⟨l, hkind, hsound⟩ := ht.sound
      exact absurd (hkind.trans hk) hsound.kind.2
    | stop => cases hk
    | done =>
      refine ⟨s.finish, tokens_of_end hrest, ?_⟩
      unfold finish
      rw [hw]
      rfl
  | @first t ts hword hlined ih =>
    obtain ⟨ht, hts⟩ := List.forall_mem_cons.mp hp
    have hrespelled := ht.respelled hword.not_endsStatement
    obtain ⟨hcolumn, hlevel⟩ := hstart rfl
    obtain ⟨c, more, hspelling, hc, ho⟩ := hrespelled.first (breaks_printed ts)
    rw [Option.isSome_none, printed_word hword, if_neg Bool.false_ne_true, List.append_assoc,
      hspelling] at hrest
    obtain ⟨s₁, hrun, hs₁, hrest₁, hw₁, hlevel₁⟩ := run_indent hs hcolumn hlevel hrest hc ho
    refine hrun.rereads_nil (rereads_word hs₁ hlevel₁ hrespelled ?_ ?_)
    · rw [hrest₁, hspelling]
    · intro s' hs' hline' hrest'
      exact ih hts hs' hline' hrest' fun h => absurd h (Option.some_ne_none _)
  | @word t ts hword hlined ih =>
    obtain ⟨ht, hts⟩ := List.forall_mem_cons.mp hp
    have hrespelled := ht.respelled hword.not_endsStatement
    obtain ⟨hw, hlevel⟩ := line?_eq_some.mp hline
    obtain ⟨c, more, hspelling, hc, -⟩ := hrespelled.first (breaks_printed ts)
    rw [Option.isSome_some, printed_word hword, if_pos rfl, List.append_assoc, hspelling] at hrest
    obtain ⟨s₁, hrun, hs₁, hrest₁, -, hlevel₁⟩ := run_space hs hw hrest hc
    refine hrun.rereads_nil (rereads_word hs₁ (hlevel₁.trans hlevel) hrespelled ?_ ?_)
    · rw [hrest₁, hspelling]
    · intro s' hs' hline' hrest'
      exact ih hts hs' hline' hrest' fun h => absurd h (Option.some_ne_none _)
  | @stop t ts hk hkeyword hlined ih =>
    obtain ⟨ht, hts⟩ := List.forall_mem_cons.mp hp
    obtain ⟨hw, hlevel⟩ := line?_eq_some.mp hline
    have hcut : s.cursor.rest = '\n' :: printed false ts := by
      rw [hrest]
      exact if_pos hk
    have hrun : Run s s.endLine.1 s.endLine.2 := Run.single hcut (piece_newline s _)
    have hread : s.endLine.1.map Token.content = [t].map Token.content := by
      cases ht with
      | word ht =>
        obtain ⟨l, hkind, hsound⟩ := ht.sound
        exact absurd (hkind.trans hk) hsound.kind.1
      | stop =>
        unfold endLine
        rw [hw, hlevel]
        rfl
      | done => cases hk
    refine hrun.rereads hread (ih hts (reads_endLine s).steady rfl ?_ fun _ => ⟨rfl, rfl⟩)
    rw [rest_endLine, hcut]
    rfl

end Scanner

/-- The tokens of a source text are those of their own plain text. -/
theorem tokenize_printed {source file : String} {ts : List Token}
    (h : tokenize source file = .ok ts) (copy : String) :
    ∃ us, tokenize (String.ofList (printed false ts)) copy = .ok us ∧
      us.map Token.content = ts.map Token.content := by
  have hrest : (Scanner.start copy (String.ofList (printed false ts)).toList).cursor.rest =
      printed false ts := String.toList_ofList
  exact Scanner.rereads_printed (lined_tokenize h) (Scanner.printable_tokens h)
    (Scanner.steady_start ..) rfl hrest fun _ => ⟨rfl, rfl⟩

/-- Operators that meet a comment, a tab, and numbers that could go on. -/
theorem tokenize_printed_operators :
    ∃ ts us, tokenize "a+=/* b */0x1F\n\t'\\n' /\"c\"// d" "" = .ok ts ∧
      printed false ts = "a += 31\n    '\\n' / \"c\"\n".toList ∧
      tokenize (String.ofList (printed false ts)) "" = .ok us ∧
      us.map Token.content = ts.map Token.content := by
  have hok : ((tokenize "a+=/* b */0x1F\n\t'\\n' /\"c\"// d" "").map (printed false)).toOption =
      some "a += 31\n    '\\n' / \"c\"\n".toList := by decide +kernel
  cases hs : tokenize "a+=/* b */0x1F\n\t'\\n' /\"c\"// d" "" with
  | error d => simp [hs, Except.map, Except.toOption] at hok
  | ok ts =>
    simp only [hs, Except.map, Except.toOption, Option.some.injEq] at hok
    obtain ⟨us, hus, hcontent⟩ := tokenize_printed hs ""
    exact ⟨ts, us, rfl, hok, hus, hcontent⟩

end Offside
