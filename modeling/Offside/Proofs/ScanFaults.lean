import Offside.Proofs.LineEnds
import Offside.Proofs.Scanning

/-!
# Why a scanner stops

There are three kinds of fault in a text: a line that is badly indented, a comment that is not closed, and
a word that is none. Indentation is looked at only where a line begins, and only if something stands behind
it.
-/

namespace Offside

set_option autoImplicit false

open Source (isIndent)

/-! ## Indentation -/

/-- Indentation that stands for a level: one tab or four spaces for each. -/
inductive IsIndentation : List Char → Nat → Prop where
  | tabs {level : Nat} : IsIndentation (List.replicate level '\t') level
  | spaces {level : Nat} : IsIndentation (List.replicate (indentWidth * level) ' ') level

/-- Indentation that stands for no level. -/
inductive Misindents : List Char → Fault → Prop where
  | mixed {indent : List Char} : ' ' ∈ indent → '\t' ∈ indent → Misindents indent .mixedIndentation
  | uneven {spaces : Nat} : ¬ indentWidth ∣ spaces →
      Misindents (List.replicate spaces ' ') (.badIndentation spaces)

/-- Nothing stands in the rest of the line, or a comment to its end does. -/
def EmptyLine (rest : List Char) : Prop := LineEnd rest ∨ ['/', '/'] <+: rest

/-- The text begins with indentation that stands for no level, in a line that goes on behind it. -/
structure Misindented (text : List Char) (fault : Fault) : Prop where
  misindents : Misindents (text.takeWhile isIndent) fault
  goesOn : ¬ EmptyLine (text.dropWhile isIndent)

/-- What only indentation can be wrong with. -/
def Fault.ofIndentation : Fault → Bool
  | mixedIndentation => true
  | badIndentation _ => true
  | _ => false

/-- What a word can be wrong with. -/
def Fault.ofWord : Fault → Bool
  | unexpectedCharacter _ => true
  | badNumber => true
  | expectedDigit => true
  | expectedHexDigit => true
  | badHexadecimal _ => true
  | lineEndIn _ => true
  | badEscape => true
  | badCharacterLength => true
  | _ => false

theorem Misindents.ne_nil {indent : List Char} {fault : Fault} (h : Misindents indent fault) :
    indent ≠ [] := by
  cases h with
  | mixed hspace => exact List.ne_nil_of_mem hspace
  | @uneven spaces heven =>
    rintro hnil
    obtain rfl : spaces = 0 := by simpa using hnil
    exact heven (Nat.dvd_zero indentWidth)

theorem Misindents.ofIndentation {indent : List Char} {fault : Fault} (h : Misindents indent fault) :
    fault.ofIndentation := by
  cases h with
  | mixed => rfl
  | uneven => rfl

theorem isIndentation_nil : IsIndentation [] 0 := @IsIndentation.tabs 0

/-- Indentation is mixed, or nothing but spaces, or nothing but tabs. -/
theorem indent_cases {indent : List Char} (h : ∀ c ∈ indent, isIndent c) :
    (' ' ∈ indent ∧ '\t' ∈ indent) ∨ (∃ n, indent = List.replicate n ' ') ∨
      ∃ n, indent = List.replicate n '\t' := by
  have hchar : ∀ c ∈ indent, c = ' ' ∨ c = '\t' := fun c hc => by simpa [isIndent] using h c hc
  by_cases hspace : ' ' ∈ indent
  · by_cases htab : '\t' ∈ indent
    · exact .inl ⟨hspace, htab⟩
    · refine .inr (.inl ⟨indent.length, List.eq_replicate_iff.mpr ⟨rfl, fun c hc => ?_⟩⟩)
      exact (hchar c hc).resolve_right fun heq => htab (heq ▸ hc)
  · refine .inr (.inr ⟨indent.length, List.eq_replicate_iff.mpr ⟨rfl, fun c hc => ?_⟩⟩)
    exact (hchar c hc).resolve_left fun heq => hspace (heq ▸ hc)

namespace Scanner

theorem isBlank_of_isIndent {c : Char} (h : isIndent c) : isBlank c := by
  simp only [isIndent, Bool.or_eq_true, decide_eq_true_eq] at h
  rcases h with rfl | rfl <;> rfl

theorem levelOf_mixed {indent : List Char} (hspace : ' ' ∈ indent) (htab : '\t' ∈ indent) :
    levelOf indent = .error .mixedIndentation :=
  if_pos ⟨List.count_pos_iff.mpr hspace, List.count_pos_iff.mpr htab⟩

theorem levelOf_tabs (n : Nat) : levelOf (List.replicate n '\t') = .ok n := by
  simp [levelOf, List.count_replicate]

theorem levelOf_uneven {n : Nat} (h : ¬ indentWidth ∣ n) :
    levelOf (List.replicate n ' ') = .error (.badIndentation n) := by
  rw [Nat.dvd_iff_mod_eq_zero] at h
  simp [levelOf, List.count_replicate, h]

theorem levelOf_even (n : Nat) : levelOf (List.replicate (indentWidth * n) ' ') = .ok n := by
  have hpos : 0 < indentWidth := by decide
  have hzero (hn : indentWidth * n = 0) : n = 0 := (Nat.mul_eq_zero.mp hn).resolve_left hpos.ne'
  simp only [levelOf, List.count_replicate]
  simp [Nat.mul_div_cancel_left n hpos, hpos]
  exact fun hn => hn.symm

/-- Indentation has a level, or the fault that it stands for none. -/
theorem levelOf_cases {indent : List Char} (h : ∀ c ∈ indent, isIndent c) :
    (∃ level, levelOf indent = .ok level ∧ IsIndentation indent level) ∨
      ∃ fault, levelOf indent = .error fault ∧ Misindents indent fault := by
  rcases indent_cases h with ⟨hspace, htab⟩ | ⟨n, rfl⟩ | ⟨n, rfl⟩
  · exact .inr ⟨_, levelOf_mixed hspace htab, .mixed hspace htab⟩
  · by_cases heven : indentWidth ∣ n
    · obtain ⟨level, rfl⟩ := heven
      exact .inl ⟨level, levelOf_even level, .spaces⟩
    · exact .inr ⟨_, levelOf_uneven heven, .uneven heven⟩
  · exact .inl ⟨n, levelOf_tabs n, .tabs⟩

theorem levelOf_of_misindents {indent : List Char} {fault : Fault} (h : Misindents indent fault) :
    levelOf indent = .error fault := by
  cases h with
  | mixed hspace htab => exact levelOf_mixed hspace htab
  | uneven heven => exact levelOf_uneven heven

/-- No indentation stands for a level and for none. -/
theorem not_misindents_of_isIndentation {indent : List Char} {level : Nat} {fault : Fault}
    (h : IsIndentation indent level) : ¬ Misindents indent fault := by
  intro hmis
  have herror := levelOf_of_misindents hmis
  cases h with
  | tabs => simp [levelOf_tabs] at herror
  | spaces => simp [levelOf_even] at herror

theorem emptyFrom_iff {rest : List Char} : emptyFrom rest = true ↔ EmptyLine rest := by
  constructor
  · intro h
    unfold emptyFrom at h
    split at h
    · exact .inl .none
    · exact .inl .feed
    · exact .inl .returned
    · exact .inr ⟨_, rfl⟩
    · cases h
  · rintro (h | ⟨more, rfl⟩)
    · cases h with
      | none | feed | returned => rfl
    · rfl

variable {column level : Nat} {text : List Char} {fault : Fault}

theorem levelBehind_eq_error :
    levelBehind column level text = .error fault ↔ column = 1 ∧ Misindented text fault := by
  have hindent : ∀ c ∈ text.takeWhile isIndent, isIndent c := fun c hc => mem_takeWhile hc
  unfold levelBehind
  constructor
  · intro h
    split at h
    · next hif =>
      obtain ⟨hcolumn, -, hempty⟩ := hif
      refine ⟨hcolumn, ?_, fun hline => ?_⟩
      · rcases levelOf_cases hindent with ⟨level, hlevel, -⟩ | ⟨found, hfound, hmis⟩
        · rw [hlevel] at h
          cases h
        · rw [hfound, Except.error.injEq] at h
          exact h ▸ hmis
      · simp [emptyFrom_iff.mpr hline] at hempty
    · cases h
  · rintro ⟨hcolumn, hmis, hline⟩
    have hempty : (!emptyFrom (text.dropWhile isIndent)) = true := by
      rw [Bool.not_eq_true', ← Bool.not_eq_true, emptyFrom_iff]
      exact hline
    rw [if_pos ⟨hcolumn, hmis.ne_nil, hempty⟩]
    exact levelOf_of_misindents hmis

theorem levelBehind_of_empty (h : EmptyLine (text.dropWhile isIndent)) :
    levelBehind column level text = .ok level := by
  refine if_neg ?_
  rintro ⟨-, -, hgoesOn⟩
  rw [emptyFrom_iff.mpr h] at hgoesOn
  cases hgoesOn

/-- Where a line begins that has something behind its indentation, the level is that of the indentation. -/
theorem levelBehind_start {found : Nat} (h : levelBehind 1 0 text = .ok found)
    (hline : ¬ EmptyLine (text.dropWhile isIndent)) : IsIndentation (text.takeWhile isIndent) found := by
  have hempty : (!emptyFrom (text.dropWhile isIndent)) = true := by
    rw [Bool.not_eq_true', ← Bool.not_eq_true, emptyFrom_iff]
    exact hline
  unfold levelBehind at h
  split at h
  · rcases levelOf_cases fun c hc => mem_takeWhile hc with ⟨level, hlevel, hind⟩ | ⟨_, herror, -⟩
    · rw [hlevel, Except.ok.injEq] at h
      exact h ▸ hind
    · rw [herror] at h
      cases h
  · next hif =>
    have hnil : text.takeWhile isIndent = [] := by
      by_contra hne
      exact hif ⟨rfl, hne, hempty⟩
    rw [hnil]
    cases h
    exact isIndentation_nil

end Scanner

/-! ## Words -/

namespace Lexeme

variable {fault : Fault} {c : Char} {cs : List Char}

theorem ofWord_decimal (h : decimal cs = .error fault) : fault.ofWord := by
  unfold decimal at h
  dsimp only at h
  split at h
  · cases h
    rfl
  · split at h
    · cases h
    · cases h
      rfl

theorem ofWord_hexadecimal {x : Char} (h : hexadecimal x cs = .error fault) :
    fault.ofWord := by
  unfold hexadecimal at h
  dsimp only at h
  split at h
  · cases h
    rfl
  · split at h
    · cases h
      rfl
    · split at h
      · cases h
      · cases h
        rfl

theorem ofWord_number (h : number cs = .error fault) : fault.ofWord := by
  unfold number at h
  split at h
  · exact ofWord_hexadecimal h
  · exact ofWord_hexadecimal h
  · exact ofWord_decimal h

theorem ofWord_unit (h : unit cs = .error fault) : fault.ofWord := by
  unfold unit at h
  split at h
  · split at h
    · cases h
    · split at h
      · dsimp only at h
        split at h
        · cases h
        · cases h
          rfl
      · cases h
        rfl
  · cases h
    rfl
  · cases h

theorem ofWord_units (h : units cs = .error fault) : fault.ofWord := by
  fun_induction units cs generalizing fault with
  | case1 =>
    cases h
    rfl
  | case2 =>
    cases h
    rfl
  | case3 => cases h
  | case4 c rest hline hquote found hunit =>
    cases h
    exact ofWord_unit hunit
  | case5 c rest hline hquote text hunit ih =>
    cases hmore : units ((c :: rest).drop text.length) with
    | error found =>
      simp only [hmore, Except.map, Except.error.injEq] at h
      exact h ▸ ih hmore
    | ok more => simp [hmore, Except.map] at h

theorem ofWord_character (h : character cs = .error fault) : fault.ofWord := by
  unfold character at h
  cases hunits : units cs with
  | error found =>
    simp only [hunits, bind, Except.bind, Except.error.injEq] at h
    exact h ▸ ofWord_units hunits
  | ok texts =>
    simp only [hunits, bind, Except.bind] at h
    split at h
    · cases h
    · cases h
      rfl

/-- A word is wrong in itself, not because of its indentation or of a comment. -/
theorem ofWord_next (h : next c cs = .error fault) : fault.ofWord := by
  unfold next string at h
  split at h
  · exact ofWord_number h
  split at h
  · cases h
  split at h
  · cases h
  split at h
  · cases h
  split at h
  · split at h
    · cases h
    · cases h
      rfl
  split at h
  · exact ofWord_character h
  · cases h
    rfl

/-- No word is wrong because of its indentation. -/
theorem ofIndentation_next (h : next c cs = .error fault) : fault.ofIndentation = false := by
  have hword := ofWord_next h
  cases fault <;> first | rfl | cases hword

end Lexeme

/-! ## Pieces -/

namespace Scanner

variable {s : Scanner} {c : Char} {cs : List Char} {fault : Fault}

/-- Why a scanner cannot go on with the text in front of it. -/
inductive Fails (s : Scanner) : Char → List Char → Fault → Prop where
  | indentation {c : Char} {cs : List Char} {fault : Fault} : isBlank c → s.cursor.column = 1 →
      Misindented (c :: cs) fault → Fails s c cs fault
  | comment {cs : List Char} : Lexeme.comment? 1 cs = none → Fails s '/' ('*' :: cs) .unclosedComment
  | lexeme {c : Char} {cs : List Char} {fault : Fault} : c ∉ breaks →
      Lexeme.opensComment (c :: cs) = false → Lexeme.next c cs = .error fault → Fails s c cs fault

theorem fails_of_piece (hrest : s.cursor.rest = c :: cs) (hp : s.piece c cs = .error fault) :
    s.Fails c cs fault := by
  cases begins c cs with
  | blank hblank =>
    rw [piece_blank hblank, blanks_eq, hrest] at hp
    cases hl : levelBehind s.cursor.column s.level (c :: cs) with
    | ok level => simp [hl, Except.map] at hp
    | error found =>
      simp only [hl, Except.map, Except.error.injEq] at hp
      obtain ⟨hcolumn, hmis⟩ := levelBehind_eq_error.mp hl
      exact .indentation hblank hcolumn (hp ▸ hmis)
  | newline => simp [piece_newline] at hp
  | lineComment => simp [piece_lineComment] at hp
  | @blockComment cs =>
    rw [piece_blockComment] at hp
    cases hcomment : Lexeme.comment? 1 cs with
    | some text => simp [hcomment] at hp
    | none =>
      simp only [hcomment, Except.error.injEq] at hp
      exact hp ▸ .comment hcomment
  | lexeme hbreak ho =>
    rw [piece_lexeme hbreak ho] at hp
    cases hnext : Lexeme.next c cs with
    | ok l => simp [hnext, Except.map] at hp
    | error found =>
      simp only [hnext, Except.map, Except.error.injEq] at hp
      exact .lexeme hbreak ho (hp ▸ hnext)

theorem piece_of_fails (hrest : s.cursor.rest = c :: cs) (h : s.Fails c cs fault) :
    s.piece c cs = .error fault := by
  cases h with
  | indentation hblank hcolumn hmis =>
    rw [piece_blank hblank, blanks_eq, hrest, levelBehind_eq_error.mpr ⟨hcolumn, hmis⟩]
    rfl
  | comment hcomment => rw [piece_blockComment, hcomment]
  | lexeme hbreak ho hnext =>
    rw [piece_lexeme hbreak ho, hnext]
    rfl

end Scanner

end Offside
