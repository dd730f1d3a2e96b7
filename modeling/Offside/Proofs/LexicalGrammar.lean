import Mathlib.Data.List.TakeWhile
import Offside.Tokenize

/-!
# The lexical grammar

Which spans of a text are lexemes, said without a scanner: a span, the lexeme that it forms, and the text
behind it, which must not be able to make the span longer. A blank or a line break never can.
-/

namespace Offside

set_option autoImplicit false

/-- The text is at its end or goes on with a character outside of the class. -/
def Stops (p : Char → Bool) (rest : List Char) : Prop := ∀ c ∈ rest.head?, p c = false

section Stops

variable {p q : Char → Bool} {text rest : List Char}

theorem stops_nil (p : Char → Bool) : Stops p [] := nofun

theorem stops_cons {c : Char} : Stops p (c :: rest) ↔ p c = false := by simp [Stops]

theorem Stops.mono (h : Stops p rest) (hq : ∀ c, q c = true → p c = true) : Stops q rest := by
  intro c hc
  have hp := h c hc
  cases hqc : q c with
  | false => rfl
  | true => exact absurd (hq c hqc) (by simp [hp])

theorem Stops.append (h : ∀ c ∈ text.head?, p c = false) (hr : text = [] → Stops p rest) :
    Stops p (text ++ rest) := by
  cases text with
  | nil => exact hr rfl
  | cons c text =>
    apply stops_cons.mpr
    exact h c rfl

theorem stops_dropWhile (p : Char → Bool) (text : List Char) : Stops p (text.dropWhile p) := by
  intro c hc
  have h := List.head?_dropWhile_not p text
  rwa [Option.mem_def.mp hc] at h

theorem takeWhile_of_stops (h : Stops p rest) : rest.takeWhile p = [] := by
  cases rest with
  | nil => rfl
  | cons c rest => exact List.takeWhile_cons_of_neg (by simp [stops_cons.mp h])

theorem dropWhile_of_stops (h : Stops p rest) : rest.dropWhile p = rest := by
  cases rest with
  | nil => rfl
  | cons c rest => exact List.dropWhile_cons_of_neg (by simp [stops_cons.mp h])

theorem takeWhile_append_stops (ht : ∀ c ∈ text, p c = true) (hr : Stops p rest) :
    (text ++ rest).takeWhile p = text := by
  rw [List.takeWhile_append_of_pos ht, takeWhile_of_stops hr, List.append_nil]

theorem dropWhile_append_stops (ht : ∀ c ∈ text, p c = true) (hr : Stops p rest) :
    (text ++ rest).dropWhile p = rest := by
  rw [List.dropWhile_append_of_pos ht, dropWhile_of_stops hr]

theorem takeWhile_append_of_stops (hr : Stops p rest) (text : List Char) :
    (text ++ rest).takeWhile p = text.takeWhile p := by
  have hstop : Stops p (text.dropWhile p ++ rest) :=
    Stops.append (stops_dropWhile p text) fun _ => hr
  calc (text ++ rest).takeWhile p
      = (text.takeWhile p ++ (text.dropWhile p ++ rest)).takeWhile p := by
        rw [← List.append_assoc, List.takeWhile_append_dropWhile]
    _ = text.takeWhile p := takeWhile_append_stops (fun _ hc => List.mem_takeWhile_imp hc) hstop

theorem dropWhile_append_of_stops (hr : Stops p rest) (text : List Char) :
    (text ++ rest).dropWhile p = text.dropWhile p ++ rest := by
  have hstop : Stops p (text.dropWhile p ++ rest) :=
    Stops.append (stops_dropWhile p text) fun _ => hr
  calc (text ++ rest).dropWhile p
      = (text.takeWhile p ++ (text.dropWhile p ++ rest)).dropWhile p := by
        rw [← List.append_assoc, List.takeWhile_append_dropWhile]
    _ = text.dropWhile p ++ rest :=
      dropWhile_append_stops (fun _ hc => List.mem_takeWhile_imp hc) hstop

theorem not_mem_of_forall {c : Char} (hp : p c = false) (h : ∀ d ∈ text, p d = true) : c ∉ text := by
  intro hmem
  simp [h c hmem] at hp

/-- What stops at a line feed stops anything that a line feed is no part of. -/
theorem Stops.of_newline (h : Stops (· ≠ '\n') rest) (hp : p '\n' = false) : Stops p rest := by
  refine h.mono fun c hc => decide_eq_true ?_
  rintro rfl
  simp [hp] at hc

theorem forall_ne_of_not_mem {c : Char} (h : c ∉ text) : ∀ d ∈ text, decide (d ≠ c) = true := by
  intro d hd
  apply decide_eq_true
  rintro rfl
  exact h hd

theorem takeWhile_of_forall (h : ∀ c ∈ text, p c = true) : text.takeWhile p = text := by
  have happend := takeWhile_append_stops h (stops_nil p)
  rwa [List.append_nil] at happend

theorem mem_takeWhile {c : Char} (h : c ∈ text.takeWhile p) : p c = true :=
  List.mem_takeWhile_imp h

end Stops

/-- The blanks and the line feed. -/
def breaks : List Char := ['\n', ' ', '\t', '\r', '\x08', '\x0c']

/-- The text is at its end or goes on with a blank or a line break. -/
def Breaks (rest : List Char) : Prop := ∀ c ∈ rest.head?, c ∈ breaks

/-- As far as a lexeme can look, `rest'` is a break or what `rest` was. -/
def Replaces (rest rest' : List Char) : Prop := Breaks rest' ∨ rest ≠ [] ∧ rest <+: rest'

theorem replaces_append {tail : List Char} (h : Breaks tail) (rest : List Char) :
    Replaces rest (rest ++ tail) := by
  cases rest with
  | nil => exact .inl h
  | cons c rest => exact .inr ⟨List.cons_ne_nil _ _, List.prefix_append _ _⟩

section Breaks

variable {p : Char → Bool} {rest rest' : List Char}

theorem Breaks.stops (hp : breaks.all (!p ·)) (h : Breaks rest) : Stops p rest := by
  intro c hc
  simpa using List.all_eq_true.mp hp c (h c hc)

theorem Stops.replace (hp : breaks.all (!p ·)) (hr : Replaces rest rest')
    (h : Stops p rest) : Stops p rest' := by
  rcases hr with hbreaks | ⟨hne, more, rfl⟩
  · exact hbreaks.stops hp
  · exact Stops.append h fun hnil => absurd hnil hne

theorem not_break {c : Char} (hp : breaks.all (!p ·)) (h : p c = true) : c ∉ breaks := by
  intro hc
  have hno := List.all_eq_true.mp hp c hc
  simp [h] at hno

end Breaks

namespace Lexeme

/-! ## The parts of a number -/

inductive IsFraction : List Char → Prop where
  | none : IsFraction []
  | some {digits : List Char} : (∀ c ∈ digits, c.isDigit) → IsFraction ('.' :: digits)

inductive IsExponent : List Char → Prop where
  | none : IsExponent []
  | some {e : Char} {sign digits : List Char} : e = 'e' ∨ e = 'E' →
      sign = [] ∨ sign = ['+'] ∨ sign = ['-'] → digits ≠ [] → (∀ c ∈ digits, c.isDigit) →
      IsExponent (e :: sign ++ digits)

inductive IsSuffix : List Char → Prop where
  | none : IsSuffix []
  | small : IsSuffix ['f']
  | large : IsSuffix ['F']

/-- A decimal number in its parts, each as long as it can be in front of `rest`. -/
structure IsDecimal (whole fraction exponent suffix rest : List Char) : Prop where
  whole_ne : whole ≠ []
  isWhole : ∀ c ∈ whole, c.isDigit
  isFraction : IsFraction fraction
  isExponent : IsExponent exponent
  isSuffix : IsSuffix suffix
  letter : Stops Text.isAlphabetic rest
  digit : suffix = [] → Stops Char.isDigit rest
  point : fraction = [] → exponent = [] → suffix = [] → Stops (· = '.') rest

def numberType (fraction exponent suffix : List Char) : DataType :=
  if suffix ≠ [] then .float else if fraction ≠ [] ∨ exponent ≠ [] then .double else .int

/-! ## The parts of a literal in quotes -/

/-- What may stand in a string: a backslash takes the character behind it along. -/
inductive IsStringBody : List Char → Prop where
  | nil : IsStringBody []
  | plain {c : Char} {text : List Char} : c ≠ '"' → c ≠ '\\' → c ≠ '\n' → IsStringBody text →
      IsStringBody (c :: text)
  | escaped {c : Char} {text : List Char} : c ≠ '\n' → IsStringBody text →
      IsStringBody ('\\' :: c :: text)

/-- What may stand in a character literal: one character or one escape. -/
inductive IsUnit : List Char → Prop where
  | plain {c : Char} : c ≠ '\'' → c ≠ '\\' → c ≠ '\n' → IsUnit [c]
  | letter {c : Char} : (Text.Escape.letter? c).isSome → IsUnit ['\\', c]
  | code {digits : List Char} : digits ≠ [] → digits.length ≤ 3 → (∀ c ∈ digits, c.isDigit) →
      (Text.Escape.code? digits).isSome → IsUnit ('\\' :: digits)

/-! ## Lexemes -/

/-- A run of operator characters that ends in front of another character or of a comment. -/
inductive IsRun : List Char → List Char → Prop where
  | stop {rest : List Char} : Stops isOperator rest ∨ opensComment rest → IsRun [] rest
  | more {c : Char} {text rest : List Char} : isOperator c →
      opensComment (c :: (text ++ rest)) = false → IsRun text rest → IsRun (c :: text) rest

/-- The span forms a lexeme in front of `rest`. -/
inductive Forms : List Char → Lexeme → List Char → Prop where
  | decimal {whole fraction exponent suffix rest : List Char}
      (h : 0 < (whole ++ fraction ++ exponent ++ suffix).length) :
      IsDecimal whole fraction exponent suffix rest →
      Forms (whole ++ fraction ++ exponent ++ suffix)
        ⟨_, .literal, whole ++ fraction ++ exponent ++ suffix,
          some (numberType fraction exponent suffix), none, h⟩ rest
  | hexadecimal {x : Char} {digits rest : List Char} : x = 'x' ∨ x = 'X' → digits ≠ [] →
      (∀ c ∈ digits, Numeral.isHexDigit c) → Stops Numeral.isHexDigit rest →
      Stops Text.isAlphabetic rest → (Numeral.value 16 digits : Int) ≤ Int32.maxValue.toInt →
      Forms ('0' :: x :: digits)
        ⟨digits.length + 2, .literal, Nat.toDigits 10 (Numeral.value 16 digits), some .int, none,
          Nat.succ_pos _⟩ rest
  | word {c : Char} {text rest : List Char} : startsWord c → (∀ d ∈ text, continuesWord d) →
      Stops continuesWord rest → Forms (c :: text) (word c text) rest
  | operator {c : Char} {text rest : List Char} : IsRun (c :: text) rest →
      Forms (c :: text) ⟨(c :: text).length, .operator, c :: text, none, none, Nat.succ_pos _⟩ rest
  | delimiter {c : Char} {rest : List Char} : isDelimiter c → Forms [c] (delimiter c) rest
  | string {body rest : List Char} : IsStringBody body →
      Forms ('"' :: body ++ ['"'])
        ⟨body.length + 2, .literal, body, some .string, none, Nat.succ_pos _⟩ rest
  | character {text rest : List Char} : IsUnit text →
      Forms ('\'' :: text ++ ['\''])
        ⟨text.length + 2, .literal, text, some .char, none, Nat.succ_pos _⟩ rest

/-! ## In front of a break -/

section Replaces

variable {rest rest' : List Char}

theorem opensComment_cons {c : Char} {text : List Char}
    (h : Stops (fun d => d = '/' || d = '*') text) : opensComment (c :: text) = false := by
  unfold opensComment
  split
  · next heq =>
    obtain ⟨-, rfl⟩ := List.cons.inj heq
    simp [stops_cons] at h
  · next heq =>
    obtain ⟨-, rfl⟩ := List.cons.inj heq
    simp [stops_cons] at h
  · rfl

theorem opensComment_append {text : List Char} (hne : text ≠ []) (c : Char) (more : List Char) :
    opensComment (c :: (text ++ more)) = opensComment (c :: text) := by
  cases text with
  | nil => exact absurd rfl hne
  | cons d text =>
    rw [List.cons_append]
    unfold opensComment
    split <;> simp_all

theorem IsRun.replace {text : List Char} (hr : Replaces rest rest') (h : IsRun text rest) :
    IsRun text rest' := by
  induction h with
  | @stop rest hstop =>
    apply IsRun.stop
    rcases hr with hbreaks | ⟨hne, more, rfl⟩
    · exact .inl (hbreaks.stops (by decide))
    · rcases hstop with hstop | hopens
      · exact .inl (Stops.append hstop fun hnil => absurd hnil hne)
      · right
        rcases rest with _ | ⟨c, _ | ⟨d, rest⟩⟩
        · exact absurd rfl hne
        · simp [opensComment] at hopens
        · rwa [List.cons_append, opensComment_append (List.cons_ne_nil _ _)]
  | @more c text rest hc hopens _ ih =>
    refine .more hc ?_ (ih hr)
    cases text with
    | cons d text =>
      rw [opensComment_append (List.cons_ne_nil _ _)] at hopens ⊢
      exact hopens
    | nil =>
      rcases hr with hbreaks | ⟨hne, more, rfl⟩
      · exact opensComment_cons (hbreaks.stops (by decide))
      · rw [List.nil_append] at hopens ⊢
        rwa [opensComment_append hne]

/-- What follows a lexeme may be replaced by a break. -/
theorem Forms.replace {span : List Char} {l : Lexeme} (hr : Replaces rest rest')
    (h : Forms span l rest) : Forms span l rest' := by
  cases h with
  | decimal hpos hd =>
    refine .decimal hpos { hd with letter := ?_, digit := ?_, point := ?_ }
    · exact hd.letter.replace (by decide) hr
    · exact fun hs => (hd.digit hs).replace (by decide) hr
    · exact fun hf he hs => (hd.point hf he hs).replace (by decide) hr
  | hexadecimal hx hne hd hstop hletter hmax =>
    exact .hexadecimal hx hne hd (hstop.replace (by decide) hr) (hletter.replace (by decide) hr) hmax
  | word hc ht hstop => exact .word hc ht (hstop.replace (by decide) hr)
  | operator hrun => exact .operator (hrun.replace hr)
  | delimiter hc => exact .delimiter hc
  | string hbody => exact .string hbody
  | character hunit => exact .character hunit

end Replaces

/-! ## Spans -/

variable {span rest : List Char} {l : Lexeme}

theorem text_word (c : Char) (cs : List Char) : (word c cs).text = c :: cs.takeWhile continuesWord := by
  unfold word
  simp only
  split
  · rfl
  · split <;> rfl

theorem size_word (c : Char) (cs : List Char) : (word c cs).size = (word c cs).text.length := by
  unfold word
  simp only
  split
  · rfl
  · split <;> rfl

theorem Forms.size_eq (h : Forms span l rest) : l.size = span.length := by
  cases h with
  | word _ ht => rw [size_word, text_word, takeWhile_of_forall ht]
  | delimiter => rfl
  | _ => simp

/-- A lexeme begins with no break, and no comment begins there. -/
theorem Forms.first (h : Forms span l rest) :
    ∃ c more, span = c :: more ∧ c ∉ breaks ∧ opensComment (span ++ rest) = false := by
  have hplain : ∀ (p : Char → Bool) (c : Char) (more : List Char), p c = true →
      ('/' :: breaks).all (!p ·) →
      c ∉ breaks ∧ opensComment (c :: more ++ rest) = false := by
    intro p c more hc hp
    obtain ⟨hslash, hbreak⟩ := Bool.and_eq_true_iff.mp hp
    refine ⟨not_break hbreak hc, ?_⟩
    have hne : c ≠ '/' := by
      rintro rfl
      simp only [hc] at hslash
      cases hslash
    unfold opensComment
    split <;> simp_all
  cases h with
  | @decimal whole fraction exponent suffix _ _ hd =>
    obtain ⟨hne, hwhole, -⟩ := hd
    cases whole with
    | nil => exact absurd rfl hne
    | cons c whole =>
      exact ⟨c, _, rfl, hplain Char.isDigit c _ (hwhole c List.mem_cons_self) (by decide)⟩
  | hexadecimal => exact ⟨'0', _, rfl, hplain Char.isDigit '0' _ (by decide) (by decide)⟩
  | word hc => exact ⟨_, _, rfl, hplain startsWord _ _ hc (by decide)⟩
  | operator hrun =>
    cases hrun with
    | more hc hopens => exact ⟨_, _, rfl, not_break (by decide) hc, hopens⟩
  | delimiter hc => exact ⟨_, _, rfl, hplain isDelimiter _ _ hc (by decide)⟩
  | string => exact ⟨'"', _, rfl, hplain (· = '"') '"' _ (by decide) (by decide)⟩
  | character => exact ⟨'\'', _, rfl, hplain (· = '\'') '\'' _ (by decide) (by decide)⟩

theorem IsStringBody.newline_not_mem {body : List Char} (h : IsStringBody body) : '\n' ∉ body := by
  induction h with
  | nil => exact List.not_mem_nil
  | plain _ _ hline _ ih => simp [ih, hline.symm]
  | escaped hline _ ih => simp [ih, hline.symm]

theorem IsUnit.newline_not_mem {text : List Char} (h : IsUnit text) : '\n' ∉ text := by
  cases h with
  | plain _ _ hline => simpa using hline.symm
  | @letter c hc =>
    have hne : c ≠ '\n' := by
      rintro rfl
      revert hc
      decide
    simpa using hne.symm
  | code _ _ hd => simpa using not_mem_of_forall (by decide) hd

theorem IsFraction.newline_not_mem {text : List Char} (h : IsFraction text) : '\n' ∉ text := by
  cases h with
  | none => exact List.not_mem_nil
  | some hd => simpa using not_mem_of_forall (by decide) hd

theorem IsExponent.newline_not_mem {text : List Char} (h : IsExponent text) : '\n' ∉ text := by
  cases h with
  | none => exact List.not_mem_nil
  | some he hsign _ hd =>
    have hdigits := not_mem_of_forall (c := '\n') (by decide) hd
    rcases he with rfl | rfl <;> rcases hsign with rfl | rfl | rfl <;> simpa using hdigits

theorem IsSuffix.newline_not_mem {text : List Char} (h : IsSuffix text) : '\n' ∉ text := by
  cases h <;> decide

theorem IsRun.isOperator {text : List Char} (h : IsRun text rest) : ∀ c ∈ text, isOperator c := by
  induction h with
  | stop => exact List.forall_mem_nil _
  | more hc _ _ ih => exact List.forall_mem_cons.mpr ⟨hc, ih⟩

/-- A lexeme stays inside of its line. -/
theorem Forms.newline_not_mem (h : Forms span l rest) : '\n' ∉ span := by
  cases h with
  | decimal _ hd =>
    have hwhole := not_mem_of_forall (c := '\n') (by decide) hd.isWhole
    simp [hwhole, hd.isFraction.newline_not_mem, hd.isExponent.newline_not_mem,
      hd.isSuffix.newline_not_mem]
  | hexadecimal hx _ hd =>
    have hdigits := not_mem_of_forall (c := '\n') (by decide) hd
    rcases hx with rfl | rfl <;> simpa using hdigits
  | @word c text _ hc ht =>
    have hall : ∀ d ∈ c :: text, continuesWord d := by
      refine List.forall_mem_cons.mpr ⟨?_, ht⟩
      simp only [startsWord, continuesWord, Char.isAlphanum, Bool.or_eq_true] at hc ⊢
      exact hc.imp_left .inl
    exact not_mem_of_forall (by decide) hall
  | operator hrun => exact not_mem_of_forall (by decide) hrun.isOperator
  | delimiter hc => exact not_mem_of_forall (by decide) (List.forall_mem_singleton.mpr hc)
  | string hbody => simpa using hbody.newline_not_mem
  | character hunit => simpa using hunit.newline_not_mem

end Lexeme

end Offside
