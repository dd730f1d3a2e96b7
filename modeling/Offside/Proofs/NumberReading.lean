import Offside.Proofs.LexicalGrammar

/-!
# Reading numbers

A number is read part by part, and each part as far as it goes. What is read so is a number of the lexical
grammar, and every number of the grammar is read.
-/

namespace Offside

set_option autoImplicit false

namespace Lexeme

/-! ## Decimal parts in front of a rest -/

theorem head_fraction {f : List Char} (h : IsFraction f) : ∀ c ∈ f.head?, c = '.' := by
  cases h with
  | none => nofun
  | some _ =>
    intro c hc
    exact (Option.some.inj hc).symm

theorem head_exponent {e : List Char} (h : IsExponent e) : ∀ c ∈ e.head?, c = 'e' ∨ c = 'E' := by
  cases h with
  | none => nofun
  | some he =>
    intro c hc
    rwa [← Option.some.inj hc]

theorem head_suffix {s : List Char} (h : IsSuffix s) : ∀ c ∈ s.head?, c = 'f' ∨ c = 'F' := by
  cases h <;> simp

/-- No part of a number but the first begins with a character outside of these. -/
theorem stops_parts {p : Char → Bool} {fraction exponent suffix rest : List Char}
    (hf : IsFraction fraction) (he : IsExponent exponent) (hs : IsSuffix suffix)
    (hpoint : fraction ≠ [] → p '.' = false) (hletter : exponent ≠ [] → p 'e' = false ∧ p 'E' = false)
    (hend : suffix ≠ [] → p 'f' = false ∧ p 'F' = false)
    (hrest : fraction = [] → exponent = [] → suffix = [] → Stops p rest) :
    Stops p (fraction ++ (exponent ++ (suffix ++ rest))) := by
  apply Stops.append
  · intro c hc
    have hne : fraction ≠ [] := by
      rintro rfl
      cases hc
    rw [head_fraction hf c hc]
    exact hpoint hne
  · intro hf'
    apply Stops.append
    · intro c hc
      have hne : exponent ≠ [] := by
        rintro rfl
        cases hc
      rcases head_exponent he c hc with rfl | rfl
      · exact (hletter hne).1
      · exact (hletter hne).2
    · intro he'
      apply Stops.append
      · intro c hc
        have hne : suffix ≠ [] := by
          rintro rfl
          cases hc
        rcases head_suffix hs c hc with rfl | rfl
        · exact (hend hne).1
        · exact (hend hne).2
      · exact hrest hf' he'

theorem splitFraction_append {f rest : List Char} (hf : IsFraction f)
    (hpoint : f = [] → Stops (· = '.') rest) (hdigit : f ≠ [] → Stops Char.isDigit rest) :
    splitFraction (f ++ rest) = (f, rest) := by
  cases hf with
  | none =>
    have hstop := hpoint rfl
    rw [List.nil_append]
    unfold splitFraction
    split
    · simp [stops_cons] at hstop
    · rfl
  | @some digits hd =>
    have hstop := hdigit (List.cons_ne_nil _ _)
    rw [List.cons_append, splitFraction, takeWhile_append_stops hd hstop,
      dropWhile_append_stops hd hstop]

theorem splitSign_append {sign digits : List Char}
    (hsign : sign = [] ∨ sign = ['+'] ∨ sign = ['-']) (hd : ∀ c ∈ digits.head?, c.isDigit) :
    splitSign (sign ++ digits) = (sign, digits) := by
  rcases hsign with rfl | rfl | rfl
  · rw [List.nil_append]
    unfold splitSign
    split
    · exact absurd (hd '+' rfl) (by decide)
    · exact absurd (hd '-' rfl) (by decide)
    · rfl
  · rfl
  · rfl

theorem splitExponent_append {e rest : List Char} (he : IsExponent e)
    (hletter : e = [] → Stops (fun c => c = 'e' || c = 'E') rest)
    (hdigit : e ≠ [] → Stops Char.isDigit rest) : splitExponent (e ++ rest) = (e, rest) := by
  cases he with
  | none =>
    have hstop := hletter rfl
    cases rest with
    | nil => rfl
    | cons c rest =>
      rw [stops_cons, Bool.or_eq_false_iff, decide_eq_false_iff_not, decide_eq_false_iff_not] at hstop
      simp [splitExponent, hstop]
  | @some e sign digits he hsign hne hd =>
    have hstop := hdigit (by simp)
    have hhead : ∀ c ∈ (digits ++ rest).head?, c.isDigit := by
      cases digits with
      | nil => exact absurd rfl hne
      | cons d digits =>
        intro c hc
        obtain rfl := Option.some.inj hc
        exact hd _ List.mem_cons_self
    have hsplit := splitSign_append hsign hhead
    simp only [List.cons_append, List.append_assoc, splitExponent, hsplit,
      takeWhile_append_stops hd hstop, dropWhile_append_stops hd hstop]
    rw [if_pos ⟨he, hne⟩]

theorem splitSuffix_append {s rest : List Char} (hs : IsSuffix s)
    (h : s = [] → Stops (fun c => c = 'f' || c = 'F') rest) :
    splitSuffix (s ++ rest) = (s, rest) := by
  cases hs with
  | none =>
    have hstop := h rfl
    rw [List.nil_append]
    unfold splitSuffix
    split
    · simp [stops_cons] at hstop
    · simp [stops_cons] at hstop
    · rfl
  | small => rfl
  | large => rfl

theorem endsNumber_iff {rest : List Char} : endsNumber rest = true ↔ Stops Text.isAlphabetic rest := by
  cases rest with
  | nil => simp [endsNumber, stops_nil]
  | cons c rest => simp [endsNumber, stops_cons]

theorem decimal_complete {whole fraction exponent suffix rest : List Char}
    (h : IsDecimal whole fraction exponent suffix rest)
    (hpos : 0 < (whole ++ fraction ++ exponent ++ suffix).length) :
    decimal (whole ++ fraction ++ exponent ++ suffix ++ rest) =
      .ok ⟨_, .literal, whole ++ fraction ++ exponent ++ suffix,
        some (numberType fraction exponent suffix), none, hpos⟩ := by
  obtain ⟨hne, hwhole, hfraction, hexponent, hsuffix, hletter, hdigit, hpoint⟩ := h
  have hdigits : Stops Char.isDigit (fraction ++ (exponent ++ (suffix ++ rest))) :=
    stops_parts hfraction hexponent hsuffix (fun _ => by decide) (fun _ => by decide)
      (fun _ => by decide) fun _ _ => hdigit
  have hdigits' : Stops Char.isDigit (exponent ++ (suffix ++ rest)) :=
    stops_parts .none hexponent hsuffix (absurd rfl) (fun _ => by decide)
      (fun _ => by decide) fun _ _ => hdigit
  have hdigits'' : Stops Char.isDigit (suffix ++ rest) :=
    stops_parts .none .none hsuffix (absurd rfl) (absurd rfl) (fun _ => by decide)
      fun _ _ => hdigit
  have hf : fraction = [] → Stops (· = '.') (exponent ++ (suffix ++ rest)) := fun hnone =>
    stops_parts .none hexponent hsuffix (absurd rfl) (fun _ => by decide)
      (fun _ => by decide) fun _ => hpoint hnone
  have he : Stops (fun c => c = 'e' || c = 'E') (suffix ++ rest) :=
    stops_parts .none .none hsuffix (absurd rfl) (absurd rfl) (fun _ => by decide)
      fun _ _ _ => hletter.mono (by simp; decide)
  have hs : Stops (fun c => c = 'f' || c = 'F') rest := hletter.mono (by simp; decide)
  unfold decimal
  simp only [List.append_assoc]
  simp only [takeWhile_append_stops hwhole hdigits, dropWhile_append_stops hwhole hdigits,
    splitFraction_append hfraction hf fun _ => hdigits',
    splitExponent_append hexponent (fun _ => he) fun _ => hdigits'',
    splitSuffix_append hsuffix fun _ => hs]
  rw [dif_neg hne, if_pos (endsNumber_iff.mpr hletter)]
  rfl

/-! ## Splitting off the parts -/

theorem splitFraction_sound (cs : List Char) :
    ∃ fraction rest, splitFraction cs = (fraction, rest) ∧ cs = fraction ++ rest ∧
      IsFraction fraction ∧ (fraction = [] → Stops (· = '.') rest) ∧
      (fraction ≠ [] → Stops Char.isDigit rest) := by
  unfold splitFraction
  split
  · next cs =>
    refine ⟨_, _, rfl, ?_, .some fun c hc => mem_takeWhile hc, nofun, fun _ => stops_dropWhile _ _⟩
    rw [List.cons_append, List.takeWhile_append_dropWhile]
  · next h =>
    refine ⟨[], cs, rfl, rfl, .none, fun _ => ?_, absurd rfl⟩
    intro c hc
    apply decide_eq_false
    rintro rfl
    obtain ⟨more, rfl⟩ := List.head?_eq_some_iff.mp hc
    exact h more rfl

theorem splitSign_sound (cs : List Char) :
    ∃ sign rest, splitSign cs = (sign, rest) ∧ cs = sign ++ rest ∧
      (sign = [] ∨ sign = ['+'] ∨ sign = ['-']) := by
  unfold splitSign
  split
  · exact ⟨_, _, rfl, rfl, .inr (.inl rfl)⟩
  · exact ⟨_, _, rfl, rfl, .inr (.inr rfl)⟩
  · exact ⟨[], cs, rfl, rfl, .inl rfl⟩

/-- The letter `e` without digits behind it stays in the rest, where it is a letter. -/
theorem splitExponent_sound (cs : List Char) :
    ∃ exponent rest, splitExponent cs = (exponent, rest) ∧ cs = exponent ++ rest ∧
      IsExponent exponent ∧ (exponent ≠ [] → Stops Char.isDigit rest) := by
  cases cs with
  | nil => exact ⟨[], [], rfl, rfl, .none, absurd rfl⟩
  | cons c after =>
    obtain ⟨sign, tail, hsplit, rfl, hsign⟩ := splitSign_sound after
    simp only [splitExponent, hsplit]
    split
    · next h =>
      refine ⟨_, _, rfl, ?_, .some h.1 hsign h.2 fun c hc => mem_takeWhile hc,
        fun _ => stops_dropWhile _ _⟩
      rw [List.append_assoc, List.takeWhile_append_dropWhile, List.cons_append]
    · exact ⟨[], _, rfl, rfl, .none, absurd rfl⟩

theorem splitSuffix_sound (cs : List Char) :
    ∃ suffix rest, splitSuffix cs = (suffix, rest) ∧ cs = suffix ++ rest ∧ IsSuffix suffix := by
  unfold splitSuffix
  split
  · exact ⟨_, _, rfl, rfl, .small⟩
  · exact ⟨_, _, rfl, rfl, .large⟩
  · exact ⟨[], cs, rfl, rfl, .none⟩

theorem decimal_sound {cs : List Char} {l : Lexeme} (h : decimal cs = .ok l) :
    ∃ span rest, cs = span ++ rest ∧ Forms span l rest := by
  obtain ⟨fraction, afterFraction, hfraction, hcs, isFraction, hpoint, hdigit⟩ :=
    splitFraction_sound (cs.dropWhile Char.isDigit)
  obtain ⟨exponent, afterExponent, hexponent, rfl, isExponent, hdigit'⟩ :=
    splitExponent_sound afterFraction
  obtain ⟨suffix, rest, hsuffix, rfl, isSuffix⟩ := splitSuffix_sound afterExponent
  have hstop := stops_dropWhile Char.isDigit cs
  unfold decimal at h
  simp only [hfraction, hexponent, hsuffix] at h
  split at h
  · cases h
  · next hne =>
    split at h
    · next hends =>
      cases h
      refine ⟨_, rest, ?_, .decimal _ ⟨hne, fun c hc => mem_takeWhile hc, isFraction, isExponent,
        isSuffix, endsNumber_iff.mp hends, ?_, ?_⟩⟩
      · simp only [List.append_assoc]
        rw [← hcs, List.takeWhile_append_dropWhile]
      · rintro rfl
        by_cases he : exponent = []
        · by_cases hf : fraction = []
          · rw [hcs, hf, he] at hstop
            exact hstop
          · have := hdigit hf
            rwa [he] at this
        · exact hdigit' he
      · rintro rfl rfl rfl
        exact hpoint rfl
    · cases h

/-! ## Hexadecimal and decimal numbers -/

/-- The largest 32-bit integer bounds what a hexadecimal number may be worth. -/
theorem hexadecimal_sound {x : Char} {cs : List Char} {l : Lexeme} (hx : x = 'x' ∨ x = 'X')
    (h : hexadecimal x cs = .ok l) :
    ∃ span rest, '0' :: x :: cs = span ++ rest ∧ Forms span l rest := by
  unfold hexadecimal at h
  simp only at h
  split at h
  · cases h
  · next hne =>
    split at h
    · cases h
    · next hends =>
      split at h
      · next hmax =>
        cases h
        have hletter := endsNumber_iff.mp (by simpa using hends)
        refine ⟨_, cs.dropWhile Numeral.isHexDigit, ?_,
          .hexadecimal hx hne (fun c hc => mem_takeWhile hc) (stops_dropWhile _ _) hletter hmax⟩
        rw [List.cons_append, List.cons_append, List.takeWhile_append_dropWhile]
      · cases h

theorem hexadecimal_complete {x : Char} {digits rest : List Char} (hne : digits ≠ [])
    (hd : ∀ c ∈ digits, Numeral.isHexDigit c) (hstop : Stops Numeral.isHexDigit rest)
    (hletter : Stops Text.isAlphabetic rest)
    (hmax : (Numeral.value 16 digits : Int) ≤ Int32.maxValue.toInt) :
    hexadecimal x (digits ++ rest) =
      .ok ⟨digits.length + 2, .literal, Nat.toDigits 10 (Numeral.value 16 digits), some .int, none,
        Nat.succ_pos _⟩ := by
  unfold hexadecimal
  simp only [takeWhile_append_stops hd hstop, dropWhile_append_stops hd hstop]
  rw [if_neg hne, endsNumber_iff.mpr hletter, if_neg (by decide), if_pos hmax]

theorem number_sound {cs : List Char} {l : Lexeme} (h : number cs = .ok l) :
    ∃ span rest, cs = span ++ rest ∧ Forms span l rest := by
  unfold number at h
  split at h
  · exact hexadecimal_sound (.inl rfl) h
  · exact hexadecimal_sound (.inr rfl) h
  · exact decimal_sound h

/-- A decimal number is not mistaken for a hexadecimal one. -/
theorem number_of_isDecimal {whole fraction exponent suffix rest : List Char}
    (h : IsDecimal whole fraction exponent suffix rest) :
    number (whole ++ fraction ++ exponent ++ suffix ++ rest) =
      decimal (whole ++ fraction ++ exponent ++ suffix ++ rest) := by
  have hx : ∀ x more, Text.isAlphabetic x = true → x.isDigit = false → x ≠ '.' → x ≠ 'e' →
      x ≠ 'E' → x ≠ 'f' → x ≠ 'F' →
      whole ++ fraction ++ exponent ++ suffix ++ rest ≠ '0' :: x :: more := by
    intro x more hletter hdigit hpoint he hE hf hF heq
    obtain ⟨hne, hwhole, hfraction, hexponent, hsuffix, hstop, -, -⟩ := h
    simp only [List.append_assoc] at heq
    cases whole with
    | nil => exact hne rfl
    | cons zero whole =>
      rw [List.cons_append] at heq
      obtain ⟨-, heq⟩ := List.cons.inj heq
      cases whole with
      | cons d whole =>
        obtain ⟨rfl, -⟩ := List.cons.inj heq
        have := hwhole d (by simp)
        simp [hdigit] at this
      | nil =>
        have hparts : Stops (· = x) (fraction ++ (exponent ++ (suffix ++ rest))) :=
          stops_parts hfraction hexponent hsuffix (fun _ => by simpa using hpoint.symm)
            (fun _ => by simpa using ⟨he.symm, hE.symm⟩) (fun _ => by simpa using ⟨hf.symm, hF.symm⟩)
            fun _ _ _ => hstop.mono (by simpa using hletter)
        rw [List.nil_append] at heq
        rw [heq, stops_cons] at hparts
        simp at hparts
  unfold number
  split
  · next cs heq =>
    exact absurd heq (hx 'x' cs (by decide) (by decide) (by decide) (by decide) (by decide)
      (by decide) (by decide))
  · next cs heq =>
    exact absurd heq (hx 'X' cs (by decide) (by decide) (by decide) (by decide) (by decide)
      (by decide) (by decide))
  · rfl

end Lexeme

end Offside
