import Offside.Literal
import Offside.Proofs.NumberReading

/-!
# The values of numerals

What the digits, the fraction and the exponent of a number come to. The grammar of numbers and the readers of
their values are written apart; here a numeral of each shape is read, and read as the number that it shows.
-/

namespace Offside.Numeral

set_option autoImplicit false

open Lexeme (IsFraction IsExponent)

variable {digits text : List Char}

/-! ## Whole numbers -/

theorem splitSign_of_isDigit {c : Char} (h : c.isDigit) (rest : List Char) :
    splitSign (c :: rest) = (.plus, c :: rest) := by
  unfold splitSign
  split
  · next heq =>
    obtain ⟨rfl, -⟩ := List.cons.inj heq
    cases h
  · next heq =>
    obtain ⟨rfl, -⟩ := List.cons.inj heq
    cases h
  · rfl

theorem splitSign_digits (hne : digits ≠ []) (h : ∀ c ∈ digits, c.isDigit) :
    splitSign digits = (.plus, digits) := by
  cases digits with
  | nil => exact absurd rfl hne
  | cons c digits => exact splitSign_of_isDigit (h c (List.mem_cons_self ..)) digits

theorem natural?_digits (hne : digits ≠ []) (h : ∀ c ∈ digits, c.isDigit) :
    natural? digits = some (value 10 digits) := by
  rw [natural?, if_pos ⟨hne, List.all_eq_true.mpr h⟩]

theorem integer?_digits (hne : digits ≠ []) (h : ∀ c ∈ digits, c.isDigit) :
    integer? digits = some (value 10 digits : Int) := by
  rw [integer?, splitSign_digits hne h]
  simp only [natural?_digits hne h]
  rfl

/-- The power of ten that an exponent stands for. -/
inductive ExponentValue : List Char → Int → Prop where
  | none : ExponentValue [] 0
  | positive {e : Char} {sign digits : List Char} : e = 'e' ∨ e = 'E' → sign = [] ∨ sign = ['+'] →
      digits ≠ [] → (∀ c ∈ digits, c.isDigit) →
      ExponentValue (e :: sign ++ digits) (value 10 digits)
  | negative {e : Char} {digits : List Char} : e = 'e' ∨ e = 'E' → digits ≠ [] →
      (∀ c ∈ digits, c.isDigit) → ExponentValue (e :: ['-'] ++ digits) (-value 10 digits)

theorem ExponentValue.isExponent {k : Int} (h : ExponentValue text k) : IsExponent text := by
  cases h with
  | none => exact .none
  | positive he hsign hne hd => exact .some he (hsign.imp_right .inl) hne hd
  | negative he hne hd => exact .some he (.inr (.inr rfl)) hne hd

theorem ExponentValue.exponent? {k : Int} (h : ExponentValue text k) : exponent? text = some k := by
  cases h with
  | none => rfl
  | positive he hsign hne hd =>
    have hread := integer?_digits hne hd
    rcases hsign with rfl | rfl
    · rcases he with rfl | rfl <;> exact hread
    · have hplus : integer? ('+' :: _) = _ := congrArg (Option.map Sign.plus.apply) (natural?_digits hne hd)
      rcases he with rfl | rfl <;> exact hplus
  | negative he hne hd =>
    have hminus : integer? ('-' :: _) = _ := congrArg (Option.map Sign.minus.apply) (natural?_digits hne hd)
    rcases he with rfl | rfl <;> exact hminus

/-- The text shows the number m · 10 ^ e. -/
inductive IsScientific : List Char → Nat → Int → Prop where
  | mk {whole fraction exponent : List Char} {k : Int} : whole ≠ [] → (∀ c ∈ whole, c.isDigit) →
      IsFraction fraction → ExponentValue exponent k →
      IsScientific (whole ++ fraction ++ exponent) (value 10 (whole ++ fraction.tail))
        (k - fraction.tail.length)

variable {m : Nat} {e : Int}

theorem IsScientific.first (h : IsScientific text m e) : ∃ c more, text = c :: more ∧ c.isDigit := by
  obtain @⟨whole, fraction, exponent, k, hne, hd, -, -⟩ := h
  cases whole with
  | nil => exact absurd rfl hne
  | cons c whole => exact ⟨c, whole ++ fraction ++ exponent, rfl, hd c (List.mem_cons_self ..)⟩

theorem IsScientific.decimal? (h : IsScientific text m e) : decimal? text = some (.decimal m e) := by
  obtain @⟨whole, fraction, exponent, k, hne, hd, hf, hk⟩ := h
  have hstop : Stops Char.isDigit exponent := by
    intro c hc
    rcases Lexeme.head_exponent hk.isExponent c hc with rfl | rfl <;> rfl
  have hwhole : Stops Char.isDigit (fraction ++ exponent) := by
    refine Stops.append (fun c hc => ?_) fun _ => hstop
    rw [Lexeme.head_fraction hf c hc]
    rfl
  unfold Numeral.decimal?
  rw [List.append_assoc, takeWhile_append_stops hd hwhole, dropWhile_append_stops hd hwhole]
  dsimp only
  cases hf with
  | none =>
    have hnone : ∀ r, exponent ≠ '.' :: r := by
      rintro r rfl
      rcases Lexeme.head_exponent hk.isExponent '.' rfl with h | h <;> cases h
    have hexponent := hk.exponent?
    rw [List.nil_append]
    split
    · next r => exact absurd rfl (hnone r)
    · simp [hne, hexponent]
  | some hdigits =>
    have hexponent := hk.exponent?
    simp only [List.cons_append, takeWhile_append_stops hdigits hstop,
      dropWhile_append_stops hdigits hstop]
    simp [hne, hexponent]

theorem toLower_of_isDigit {c : Char} (h : c.isDigit) : c.toLower = c := by
  have hle : c.val ≤ '9'.val := by
    rw [Char.isDigit, Bool.and_eq_true, decide_eq_true_eq, decide_eq_true_eq] at h
    exact h.2
  have hupper : ¬ (c.val ≥ 'A'.val ∧ c.val ≤ 'Z'.val) := by
    rintro ⟨hge, -⟩
    exact absurd (UInt32.le_trans hge hle) (by decide)
  exact dif_neg hupper

/-- No word for a number that is none begins with a digit. -/
theorem IsScientific.magnitude? (h : IsScientific text m e) :
    magnitude? text = some (.decimal m e) := by
  have hdecimal := h.decimal?
  obtain ⟨c, more, rfl, hc⟩ := h.first
  have hword : ∀ word : List Char, (∀ w ∈ word.head?, w.isDigit = false) →
      (c :: more).map Char.toLower ≠ word := by
    rintro _ hw rfl
    have hfirst := hw c.toLower rfl
    rw [toLower_of_isDigit hc, hc] at hfirst
    cases hfirst
  unfold Numeral.magnitude?
  dsimp only
  rw [if_neg (hword _ (by simp)), if_neg, hdecimal]
  rintro (heq | heq)
  · exact hword _ (by simp) heq
  · exact hword _ (by simp) heq

theorem IsScientific.float? (h : IsScientific text m e) :
    float? (String.ofList text) = some (Float.ofScientific m (e < 0) e.natAbs) := by
  have hmagnitude := h.magnitude?
  obtain ⟨c, more, rfl, hc⟩ := h.first
  unfold Numeral.float?
  rw [String.toList_ofList, splitSign_of_isDigit hc]
  dsimp only
  rw [hmagnitude]
  rfl

theorem IsScientific.float32? (h : IsScientific text m e) :
    float32? (String.ofList text) = some (Float32.ofScientific m (e < 0) e.natAbs) := by
  have hmagnitude := h.magnitude?
  obtain ⟨c, more, rfl, hc⟩ := h.first
  unfold Numeral.float32?
  rw [String.toList_ofList, splitSign_of_isDigit hc]
  dsimp only
  rw [hmagnitude]
  rfl

end Offside.Numeral
