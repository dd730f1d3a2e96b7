import Offside.Proofs.LexemeReading

/-!
# Lexemes do not look behind their line

How a lexeme is read, or why it is none, depends on nothing that stands behind the end of its line.
-/

namespace Offside

set_option autoImplicit false

/-- What may stand behind a line: nothing, or a line break. -/
inductive LineEnd : List Char → Prop where
  | none : LineEnd []
  | feed {rest : List Char} : LineEnd ('\n' :: rest)
  | returned {rest : List Char} : LineEnd ('\r' :: '\n' :: rest)

variable {rest : List Char}

namespace LineEnd

theorem stops (h : LineEnd rest) {p : Char → Bool} (hp : breaks.all (!p ·)) : Stops p rest := by
  refine Breaks.stops hp ?_
  cases h with
  | none => exact nofun
  | feed | returned =>
    intro c hc
    obtain rfl := Option.some.inj hc
    decide

theorem takeWhile (h : LineEnd rest) (p : Char → Bool) (hp : breaks.all (!p ·)) (line : List Char) :
    (line ++ rest).takeWhile p = line.takeWhile p :=
  takeWhile_append_of_stops (h.stops hp) line

theorem dropWhile (h : LineEnd rest) (p : Char → Bool) (hp : breaks.all (!p ·)) (line : List Char) :
    (line ++ rest).dropWhile p = line.dropWhile p ++ rest :=
  dropWhile_append_of_stops (h.stops hp) line

/-- What does not begin with a line break begins in the line. -/
theorem of_append_eq_cons (h : LineEnd rest) {c : Char} {line cs : List Char} (hc : c ∉ breaks)
    (heq : line ++ rest = c :: cs) : ∃ more, line = c :: more ∧ cs = more ++ rest := by
  cases line with
  | nil =>
    cases h with
    | none => cases heq
    | feed | returned =>
      obtain ⟨rfl, -⟩ := List.cons.inj heq
      exact absurd (by decide) hc
  | cons d line =>
    obtain ⟨rfl, hcs⟩ := List.cons.inj heq
    exact ⟨line, rfl, hcs.symm⟩

end LineEnd

namespace Lexeme

/-! ## Words and operators -/

theorem word_line (h : LineEnd rest) (c : Char) (line : List Char) :
    word c (line ++ rest) = word c line := by
  unfold word
  simp only [h.takeWhile continuesWord (by decide)]

theorem opensComment_line (h : LineEnd rest) (c : Char) (line : List Char) :
    opensComment (c :: (line ++ rest)) = opensComment (c :: line) := by
  cases line with
  | nil =>
    cases h with
    | none => rfl
    | feed | returned => simp [opensComment]
  | cons d line => rw [opensComment_append (List.cons_ne_nil d line)]

theorem operatorRun_line (h : LineEnd rest) (line : List Char) :
    operatorRun (line ++ rest) = operatorRun line := by
  induction line with
  | nil =>
    cases h with
    | none => rfl
    | feed | returned => rfl
  | cons c line ih => rw [List.cons_append, operatorRun, opensComment_line h, ih, operatorRun]

/-! ## Numbers -/

theorem endsNumber_line (h : LineEnd rest) (line : List Char) :
    endsNumber (line ++ rest) = endsNumber line := by
  cases line with
  | nil =>
    cases h with
    | none => rfl
    | feed | returned => simp only [List.nil_append, endsNumber]; decide
  | cons c line => rfl

theorem splitFraction_line (h : LineEnd rest) (line : List Char) :
    splitFraction (line ++ rest) = ((splitFraction line).1, (splitFraction line).2 ++ rest) := by
  cases line with
  | nil =>
    cases h with
    | none | feed | returned => rfl
  | cons c line =>
    by_cases hc : c = '.'
    · subst hc
      simp only [List.cons_append, splitFraction, h.takeWhile Char.isDigit (by decide),
        h.dropWhile Char.isDigit (by decide)]
    · rw [List.cons_append]
      unfold splitFraction
      split <;> simp_all

theorem splitSign_line (h : LineEnd rest) (line : List Char) :
    splitSign (line ++ rest) = ((splitSign line).1, (splitSign line).2 ++ rest) := by
  cases line with
  | nil =>
    cases h with
    | none | feed | returned => rfl
  | cons c line =>
    rw [List.cons_append]
    unfold splitSign
    split <;> simp_all

theorem splitExponent_line (h : LineEnd rest) (line : List Char) :
    splitExponent (line ++ rest) = ((splitExponent line).1, (splitExponent line).2 ++ rest) := by
  cases line with
  | nil =>
    cases h with
    | none => rfl
    | feed | returned => rfl
  | cons c line =>
    rw [List.cons_append]
    unfold splitExponent
    simp only [splitSign_line h, h.takeWhile Char.isDigit (by decide),
      h.dropWhile Char.isDigit (by decide)]
    split <;> rfl

theorem splitSuffix_line (h : LineEnd rest) (line : List Char) :
    splitSuffix (line ++ rest) = ((splitSuffix line).1, (splitSuffix line).2 ++ rest) := by
  cases line with
  | nil =>
    cases h with
    | none | feed | returned => rfl
  | cons c line =>
    rw [List.cons_append]
    unfold splitSuffix
    split <;> simp_all

theorem decimal_line (h : LineEnd rest) (line : List Char) : decimal (line ++ rest) = decimal line := by
  unfold decimal
  simp only [h.takeWhile Char.isDigit (by decide), h.dropWhile Char.isDigit (by decide),
    splitFraction_line h, splitExponent_line h, splitSuffix_line h, endsNumber_line h]

theorem hexadecimal_line (h : LineEnd rest) (x : Char) (line : List Char) :
    hexadecimal x (line ++ rest) = hexadecimal x line := by
  unfold hexadecimal
  simp only [h.takeWhile Numeral.isHexDigit (by decide), h.dropWhile Numeral.isHexDigit (by decide),
    endsNumber_line h]

theorem number_line (h : LineEnd rest) (line : List Char) : number (line ++ rest) = number line := by
  have hhexadecimal {x : Char} (hx : x ∉ breaks) {cs : List Char} (heq : line ++ rest = '0' :: x :: cs) :
      ∃ more, line = '0' :: x :: more ∧ cs = more ++ rest := by
    obtain ⟨tail, rfl, htail⟩ := h.of_append_eq_cons (by decide) heq
    obtain ⟨more, rfl, hmore⟩ := h.of_append_eq_cons hx htail.symm
    exact ⟨more, rfl, hmore⟩
  unfold number
  split
  · next heq =>
    obtain ⟨more, rfl, rfl⟩ := hhexadecimal (by decide) heq
    exact hexadecimal_line h 'x' more
  · next heq =>
    obtain ⟨more, rfl, rfl⟩ := hhexadecimal (by decide) heq
    exact hexadecimal_line h 'X' more
  · next hsmall hlarge =>
    split
    · exact absurd rfl (hsmall _)
    · exact absurd rfl (hlarge _)
    · exact decimal_line h line

/-! ## Literals in quotes -/

theorem stringBody?_lineEnd (h : LineEnd rest) : stringBody? rest = none := by
  cases h with
  | none | feed | returned => simp [stringBody?]

theorem stringBody?_line (h : LineEnd rest) (line : List Char) :
    stringBody? (line ++ rest) = stringBody? line := by
  fun_induction stringBody? line with
  | case1 => exact stringBody?_lineEnd h
  | case2 => rfl
  | case3 => rfl
  | case4 => rfl
  | case5 c cs hline ih =>
    rw [List.cons_append, List.cons_append, stringBody?, ih]
    exact hline
  | case6 c cs hquote hline hbreak hescape ih =>
    by_cases hc : c = '\\'
    · subst hc
      cases cs with
      | cons d cs => exact absurd rfl (hescape d cs rfl)
      | nil =>
        cases h with
        | none | feed | returned => simp [stringBody?]
    · rw [List.cons_append, stringBody?, ih]
      · exact hquote
      · exact hline
      · exact fun _ heq _ => absurd heq hc
      · exact fun _ _ heq _ => absurd heq hc

theorem unit_line (h : LineEnd rest) (c : Char) (line : List Char) :
    unit (c :: (line ++ rest)) = unit (c :: line) := by
  by_cases hc : c = '\\'
  · subst hc
    cases line with
    | nil =>
      cases h with
      | none => rfl
      | feed | returned => rfl
    | cons d line =>
      have hdigits : Text.Escape.digits (d :: line ++ rest) = Text.Escape.digits (d :: line) := by
        rw [Text.Escape.digits, h.takeWhile Char.isDigit (by decide), Text.Escape.digits]
      rw [List.cons_append] at hdigits ⊢
      simp only [unit, hdigits]
  · have hplain (cs : List Char) : unit (c :: cs) = .ok [c] := by
      unfold unit
      split
      · next heq => exact absurd (List.cons.inj heq).1 hc
      · next heq => exact absurd (List.cons.inj heq).1 hc
      · rfl
    rw [hplain, hplain]

theorem units_lineEnd (h : LineEnd rest) : units rest = .error (.lineEndIn "char") := by
  cases h with
  | none | feed => simp [units]
  | @returned rest =>
    have hunit : unit ('\r' :: '\n' :: rest) = .ok ['\r'] := rfl
    rw [units_cons (by decide) (by decide), hunit]
    simp [units, Except.map]

theorem units_line (h : LineEnd rest) (line : List Char) : units (line ++ rest) = units line := by
  induction hn : line.length using Nat.strongRecOn generalizing line with
  | ind n ih =>
    cases line with
    | nil => rw [List.nil_append, units_lineEnd h, units_lineEnd .none]
    | cons c line =>
      by_cases hquote : c = '\''
      · rw [hquote, List.cons_append, units_quote, units_quote]
      by_cases hline : c = '\n'
      · simp [units, hline]
      rw [List.cons_append, units_cons hquote hline, units_cons hquote hline, unit_line h]
      cases hunit : unit (c :: line) with
      | error fault => rfl
      | ok text =>
        have hpos := length_unit_pos hunit
        have hlt : ((c :: line).drop text.length).length < n := by
          simp only [List.length_drop, ← hn, List.length_cons]
          omega
        obtain ⟨-, after, hcs⟩ := unit_sound hquote hline hunit
        have hle : text.length ≤ (c :: line).length := by simp [hcs]
        have hdrop : (c :: (line ++ rest)).drop text.length = (c :: line).drop text.length ++ rest := by
          rw [← List.cons_append, List.drop_append_of_le_length hle]
        dsimp only
        rw [hdrop, ih _ hlt _ rfl]

theorem next_line (h : LineEnd rest) (c : Char) (line : List Char) :
    next c (line ++ rest) = next c line := by
  have hnumber := number_line h (c :: line)
  rw [List.cons_append] at hnumber
  unfold next operator string character
  rw [hnumber, word_line h]
  simp only [operatorRun_line h, stringBody?_line h, units_line h]

end Lexeme

end Offside
