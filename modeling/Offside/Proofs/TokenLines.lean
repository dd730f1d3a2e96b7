import Offside.Proofs.Phrase
import Offside.Tokenize

/-!
# The lines of a token list

The words of a line have one level, which its end of statement shares; behind the last line stands the
end of the file.
-/

namespace Offside

set_option autoImplicit false

open Source (Cursor isIndent)

/-- A token that stands for a lexeme of the source. -/
structure IsWord (t : Token) : Prop where
  not_endsStatement : t.endsStatement = false
  keyword_iff : t.keyword.isSome ↔ t.kind = .keyword
  plainOperator : PlainOperator t

/-- Tokens to the end of the text; `line` is the level of the line that has a word already. -/
inductive Lined : Option Nat → List Token → Prop where
  | done {t : Token} : t.kind = .endOfFile → t.keyword = none → t.level = 0 → Lined none [t]
  | first {t : Token} {rest : List Token} : IsWord t → Lined (some t.level) rest →
      Lined none (t :: rest)
  | word {t : Token} {rest : List Token} : IsWord t → Lined (some t.level) rest →
      Lined (some t.level) (t :: rest)
  | stop {t : Token} {rest : List Token} : t.kind = .endOfStatement → t.keyword = none →
      Lined none rest → Lined (some t.level) (t :: rest)

theorem Lined.plainOperator {line : Option Nat} {ts : List Token} (h : Lined line ts) :
    ∀ t ∈ ts, PlainOperator t := by
  have hother : ∀ t : Token, t.kind ≠ .operator → PlainOperator t := by
    intro t ht
    simp [PlainOperator, Token.isOperator, Token.is, ht]
  induction h with
  | @done t hk =>
    rintro _ (_ | ⟨_, ⟨⟩⟩)
    exact hother t (by simp [hk])
  | first hw _ ih | word hw _ ih => exact List.forall_mem_cons.mpr ⟨hw.plainOperator, ih⟩
  | @stop t _ hk _ _ ih => exact List.forall_mem_cons.mpr ⟨hother t (by simp [hk]), ih⟩

theorem Lined.getLast?_endOfFile {line : Option Nat} {ts : List Token} (h : Lined line ts) :
    ∃ t, ts.getLast? = some t ∧ t.kind = .endOfFile := by
  induction h with
  | @done t hk => exact ⟨t, rfl, hk⟩
  | first _ _ ih | word _ _ ih | stop _ _ _ ih =>
    obtain ⟨e, he, hk⟩ := ih
    exact ⟨e, by simp [List.getLast?_cons, he], hk⟩

theorem Lined.eq_nil_of_endOfFile {line : Option Nat} {ts us : List Token} {t : Token}
    (h : Lined line ts) (hs : t :: us <:+ ts) (hk : t.kind = .endOfFile) : us = [] := by
  induction h with
  | done =>
    rcases List.suffix_cons_iff.mp hs with h | h
    · exact (List.cons.inj h).2
    · cases List.suffix_nil.mp h
  | first hw _ ih | word hw _ ih =>
    rcases List.suffix_cons_iff.mp hs with h | h
    · have := hw.not_endsStatement
      simp [← (List.cons.inj h).1, Token.endsStatement, hk] at this
    · exact ih h
  | stop hstop _ _ ih =>
    rcases List.suffix_cons_iff.mp hs with h | h
    · rw [← (List.cons.inj h).1, hk] at hstop
      cases hstop
    · exact ih h

theorem Lined.endsStatement_of_keyword {line : Option Nat} {ts : List Token} (h : Lined line ts) :
    ∀ t ∈ ts, t.keyword ≠ none → t.endsStatement = false := by
  induction h with
  | done _ hk => exact List.forall_mem_singleton.mpr fun h => absurd hk h
  | first hw _ ih | word hw _ ih =>
    exact List.forall_mem_cons.mpr ⟨fun _ => hw.not_endsStatement, ih⟩
  | stop _ hk _ ih => exact List.forall_mem_cons.mpr ⟨fun h => absurd hk h, ih⟩

/-- The first line of `tokens`, and what stands behind it. -/
structure TakesLine (tokens line rest : List Token) : Prop where
  words : ∀ t ∈ line, t.endsStatement = false
  stop : ∃ t, t.kind = .endOfStatement ∧ tokens = line ++ t :: rest

theorem TakesLine.suffix {tokens line rest : List Token} (h : TakesLine tokens line rest) :
    rest <:+ tokens := by
  obtain ⟨stop, _, rfl⟩ := h.stop
  exact (List.suffix_cons stop rest).trans (List.suffix_append line _)

theorem Lined.of_words {level : Nat} {line rest : List Token} {stop : Token}
    (h : Lined (some level) (line ++ stop :: rest)) (hstop : stop.kind = .endOfStatement)
    (hwords : ∀ t ∈ line, t.endsStatement = false) :
    (∀ t ∈ line, IsWord t ∧ t.level = level) ∧ Lined none rest := by
  induction line with
  | nil =>
    cases h with
    | word hw =>
      have := hw.not_endsStatement
      simp [Token.endsStatement, hstop] at this
    | stop _ _ hr => exact ⟨List.forall_mem_nil _, hr⟩
  | cons t line ih =>
    obtain ⟨ht, hline⟩ := List.forall_mem_cons.mp hwords
    cases h with
    | word hw hr =>
      obtain ⟨hall, hrest⟩ := ih hr hline
      exact ⟨List.forall_mem_cons.mpr ⟨⟨hw, rfl⟩, hall⟩, hrest⟩
    | stop hk => simp [Token.endsStatement, hk] at ht

theorem Lined.takesLine {tokens line rest : List Token} (h : Lined none tokens)
    (ht : TakesLine tokens line rest) :
    ∃ first more, line = first :: more ∧ (∀ t ∈ line, IsWord t ∧ t.level = first.level) ∧
      Lined none rest := by
  obtain ⟨stop, hstop, rfl⟩ := ht.stop
  cases line with
  | nil =>
    cases h with
    | done hk => exact absurd (hk.symm.trans hstop) nofun
    | first hw =>
      have := hw.not_endsStatement
      simp [Token.endsStatement, hstop] at this
  | cons first more =>
    obtain ⟨hfirst, hmore⟩ := List.forall_mem_cons.mp ht.words
    rw [List.cons_append] at h
    generalize htail : more ++ stop :: rest = tail at h
    cases h with
    | done => simp at htail
    | first hw hr =>
      subst htail
      obtain ⟨hall, hrest⟩ := hr.of_words hstop hmore
      exact ⟨first, more, rfl, List.forall_mem_cons.mpr ⟨⟨hw, rfl⟩, hall⟩, hrest⟩

namespace Lexeme

/-- What all lexemes have in common, whatever their place. -/
structure Sound (l : Lexeme) : Prop where
  kind : l.kind ≠ .endOfStatement ∧ l.kind ≠ .endOfFile
  keyword_iff : l.keyword.isSome ↔ l.kind = .keyword
  operator : l.kind = .operator → ∀ c ∈ l.text, isOperator c

theorem sound_plain {l : Lexeme} (hk : l.keyword = none)
    (h : l.kind = .literal ∨ l.kind = .identifier ∨ l.kind = .delimiter) : l.Sound := by
  constructor <;> rcases h with h | h | h <;> simp [h, hk]

theorem sound_word (c : Char) (cs : List Char) : (word c cs).Sound := by
  unfold word
  simp only
  split
  · exact ⟨by simp, by simp, by simp⟩
  · split
    · exact sound_plain rfl (.inl rfl)
    · exact sound_plain rfl (.inr (.inl rfl))

theorem isOperator_of_mem_operatorRun {cs : List Char} : ∀ c ∈ operatorRun cs, isOperator c := by
  induction cs with
  | nil => exact List.forall_mem_nil _
  | cons c cs ih =>
    rw [operatorRun]
    split
    · next h => exact List.forall_mem_cons.mpr ⟨(Bool.and_eq_true_iff.mp h).1, ih⟩
    · exact List.forall_mem_nil _

theorem sound_operator {c : Char} (hc : isOperator c) (cs : List Char) : (operator c cs).Sound :=
  ⟨by simp [operator], by simp [operator],
    fun _ => List.forall_mem_cons.mpr ⟨hc, isOperator_of_mem_operatorRun⟩⟩

theorem sound_number {cs : List Char} {l : Lexeme} (h : number cs = .ok l) : l.Sound := by
  have hdecimal : ∀ cs : List Char, decimal cs = .ok l → l.Sound := by
    intro cs h
    unfold decimal at h
    simp only at h
    split at h
    · cases h
    · split at h
      · cases h
        exact sound_plain rfl (.inl rfl)
      · cases h
  have hhexadecimal : ∀ (x : Char) (cs : List Char), hexadecimal x cs = .ok l → l.Sound := by
    intro x cs h
    unfold hexadecimal at h
    simp only at h
    split at h
    · cases h
    · split at h
      · cases h
      · split at h
        · cases h
          exact sound_plain rfl (.inl rfl)
        · cases h
  unfold number at h
  split at h
  · exact hhexadecimal _ _ h
  · exact hhexadecimal _ _ h
  · exact hdecimal _ h

theorem sound_string {cs : List Char} {l : Lexeme} (h : string cs = .ok l) : l.Sound := by
  unfold string at h
  split at h
  · cases h
    exact sound_plain rfl (.inl rfl)
  · cases h

theorem sound_character {cs : List Char} {l : Lexeme} (h : character cs = .ok l) : l.Sound := by
  unfold character at h
  cases hu : units cs with
  | error fault => simp [hu, bind, Except.bind] at h
  | ok texts =>
    simp only [hu, bind, Except.bind] at h
    split at h
    · cases h
      exact sound_plain rfl (.inl rfl)
    · cases h

theorem sound_next {c : Char} {cs : List Char} {l : Lexeme} (h : next c cs = .ok l) : l.Sound := by
  unfold next at h
  split at h
  · exact sound_number h
  · split at h
    · cases h
      exact sound_word c cs
    · split at h
      · next hc =>
        cases h
        exact sound_operator hc cs
      · split at h
        · cases h
          exact sound_plain rfl (.inr (.inr rfl))
        · split at h
          · exact sound_string h
          · split at h
            · exact sound_character h
            · cases h

theorem Sound.isWord {l : Lexeme} (h : l.Sound) (location : Location) (level : Nat) :
    IsWord ⟨l.kind, String.ofList l.text, location, level, l.type, l.keyword⟩ := by
  refine ⟨by simp [Token.endsStatement, h.kind], h.keyword_iff, ?_⟩
  have hplain : ∀ c : Char, isOperator c = false →
      ¬ Token.isOperator ⟨l.kind, String.ofList l.text, location, level, l.type, l.keyword⟩
        (String.ofList [c]) := by
    intro c hc ht
    simp only [Token.isOperator, Token.is, Bool.and_eq_true, beq_iff_eq,
      String.ofList_inj] at ht
    have := h.operator ht.1 c (by simp [ht.2])
    simp [hc] at this
  exact ⟨hplain '(' (by decide), hplain ')' (by decide)⟩

end Lexeme

namespace Scanner

theorem column_le_advanceN (n : Nat) (c : Cursor) : c.column ≤ (c.advanceN n).column := by
  induction n generalizing c with
  | zero => exact Nat.le_refl _
  | succ n ih =>
    refine Nat.le_trans ?_ (ih c.advance)
    unfold Cursor.advance
    split
    · exact Nat.le_refl _
    · exact Nat.le_succ _

theorem column_lt_advanceN {n : Nat} {c : Cursor} (hn : 0 < n) (h : c.rest ≠ []) :
    c.column < (c.advanceN n).column := by
  cases n with
  | zero => cases hn
  | succ n =>
    refine Nat.lt_of_lt_of_le ?_ (column_le_advanceN n c.advance)
    unfold Cursor.advance
    split
    · next hr => exact absurd hr h
    · exact Nat.lt_succ_self _

/-- The level of the line, once it has a word. -/
def line? (s : Scanner) : Option Nat := if s.written then some s.level else none

/-- Behind a word the cursor is not at the start of a line, so that the level stays as it is. -/
structure Steady (s : Scanner) : Prop where
  column_pos : 1 ≤ s.cursor.column
  column_ne : s.written → s.cursor.column ≠ 1

theorem steady_start (file : String) (text : List Char) : (start file text).Steady :=
  ⟨Nat.le_refl 1, fun h => by cases h⟩

/-- What has been read goes in front of what is to come. -/
structure Reads (s s' : Scanner) (read : List Token) : Prop where
  steady : s'.Steady
  lined : ∀ {rest : List Token}, Lined s'.line? rest → Lined s.line? (read ++ rest)

theorem Reads.trans {s₁ s₂ s₃ : Scanner} {read more : List Token} (h₁ : s₁.Reads s₂ read)
    (h₂ : s₂.Reads s₃ more) : s₁.Reads s₃ (read ++ more) where
  steady := h₂.steady
  lined h := by
    rw [List.append_assoc]
    exact h₁.lined (h₂.lined h)

theorem reads_pass {s : Scanner} (n : Nat) (h : s.Steady) : s.Reads (s.pass n) [] := by
  have hle : s.cursor.column ≤ (s.pass n).cursor.column := column_le_advanceN n s.cursor
  refine ⟨⟨Nat.le_trans h.column_pos hle, fun hw => ?_⟩, id⟩
  have h1 := h.column_pos
  have h2 := h.column_ne hw
  omega

theorem reads_endLine (s : Scanner) : s.Reads s.endLine.2 s.endLine.1 := by
  refine ⟨⟨Nat.le_refl 1, nofun⟩, fun {rest} hrest => ?_⟩
  unfold endLine line?
  cases s.written with
  | false => exact hrest
  | true => exact @Lined.stop (.plain .endOfStatement "\n" s.place s.level) rest rfl rfl hrest

theorem reads_passText {text : List Char} {s : Scanner} (h : s.Steady) :
    s.Reads (s.passText text).2 (s.passText text).1 := by
  induction text generalizing s with
  | nil => exact ⟨h, id⟩
  | cons c cs ih =>
    by_cases hc : c = '\n'
    · simp only [passText, hc, if_true]
      exact (reads_endLine s).trans (ih (reads_endLine s).steady)
    · simp only [passText, hc, if_false]
      exact (reads_pass 1 h).trans (ih (reads_pass 1 h).steady)

/-- Blanks set a level only where the line has no word yet. -/
theorem reads_blanks {s s' : Scanner} (h : s.Steady) (hb : s.blanks = .ok s') : s.Reads s' [] := by
  unfold blanks at hb
  simp only at hb
  split at hb
  · next hc =>
    have hw : s.written = false := Bool.eq_false_iff.mpr fun hw => h.column_ne hw hc.1
    cases hl : levelOf (s.cursor.rest.takeWhile isIndent) with
    | error fault => simp [hl, bind, Except.bind] at hb
    | ok level =>
      simp only [hl, bind, Except.bind, pure, Except.pure, Except.ok.injEq] at hb
      subst hb
      have hpass := reads_pass (s.cursor.rest.takeWhile isBlank).length h
      refine ⟨⟨hpass.steady.column_pos, hpass.steady.column_ne⟩, fun hrest => ?_⟩
      simp only [line?, pass, hw] at hrest ⊢
      exact hrest
  · cases hb
    exact reads_pass _ h

theorem reads_lexeme {s : Scanner} {l : Lexeme} (hl : l.Sound) (h : s.Steady)
    (hrest : s.cursor.rest ≠ []) : s.Reads (s.lexeme l).2 (s.lexeme l).1 := by
  have hlt : s.cursor.column < (s.pass l.size).cursor.column :=
    column_lt_advanceN l.size_pos hrest
  have hpos := h.column_pos
  refine ⟨⟨by simp only [lexeme]; omega, fun _ => by simp only [lexeme]; omega⟩, fun {rest} hr => ?_⟩
  have hword := hl.isWord s.place s.level
  unfold lexeme line? at *
  cases s.written with
  | false => exact .first hword hr
  | true => exact .word hword hr

theorem reads_piece {s s' : Scanner} {c : Char} {cs : List Char} {read : List Token}
    (hrest : s.cursor.rest = c :: cs) (h : s.Steady) (hp : s.piece c cs = .ok (read, s')) :
    s.Reads s' read := by
  unfold piece at hp
  split at hp
  · cases hb : s.blanks with
    | error fault => simp [hb, bind, Except.bind] at hp
    | ok t =>
      simp only [hb, bind, Except.bind, pure, Except.pure, Except.ok.injEq, Prod.mk.injEq] at hp
      obtain ⟨rfl, rfl⟩ := hp
      exact reads_blanks h hb
  · split at hp
    · simp only [Except.ok.injEq, Prod.ext_iff] at hp
      obtain ⟨rfl, rfl⟩ := hp
      exact reads_endLine s
    · split at hp
      · cases hp
        exact reads_pass _ h
      · split at hp
        · simp only [Except.ok.injEq, Prod.ext_iff] at hp
          obtain ⟨rfl, rfl⟩ := hp
          exact reads_passText h
        · cases hp
      · cases hl : Lexeme.next c cs with
        | error fault => simp [hl, bind, Except.bind] at hp
        | ok l =>
          simp only [hl, bind, Except.bind, pure, Except.pure, Except.ok.injEq] at hp
          cases hp
          exact reads_lexeme (Lexeme.sound_next hl) h (by simp [hrest])

theorem lined_finish (s : Scanner) : Lined s.line? s.finish := by
  have hdone : Lined none [.endAt s.place] := .done rfl rfl rfl
  unfold finish line?
  cases s.written with
  | false => exact hdone
  | true => exact @Lined.stop (.plain .endOfStatement "" s.place s.level) _ rfl rfl hdone

theorem lined_tokens {s : Scanner} {ts : List Token} (h : s.Steady) (ht : s.tokens = .ok ts) :
    Lined s.line? ts := by
  induction hn : s.cursor.rest.length using Nat.strongRecOn generalizing s ts with
  | ind n ih =>
    rw [tokens] at ht
    split at ht
    · cases ht
      exact lined_finish s
    · next c cs hrest =>
      split at ht
      · cases ht
      · next read s' hp =>
        have hreads := reads_piece hrest h hp
        cases hs : s'.tokens with
        | error d => simp [hs, Except.map] at ht
        | ok more =>
          simp only [hs, Except.map, Except.ok.injEq] at ht
          subst ht
          exact hreads.lined (ih _ (hn ▸ piece_lt hrest hp) hreads.steady hs rfl)

end Scanner

theorem lined_tokenize {source file : String} {ts : List Token} (h : tokenize source file = .ok ts) :
    Lined none ts :=
  Scanner.lined_tokens (Scanner.steady_start ..) h

end Offside
