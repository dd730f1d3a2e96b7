import Mathlib.Algebra.Group.Nat.Defs
import Offside.Proofs.Execution
import Offside.Proofs.ReachedPlaces

/-!
# Maximal munch

Words, operators and numbers are as long as they can be where they stand. Nothing of the kind of a token that
is read begins at its place and goes on further; for the number that has an exponent or a fraction if it can,
this takes an argument part by part.
-/

namespace Offside

set_option autoImplicit false

open Lexeme (Forms IsDecimal IsExponent IsFraction IsRun IsSuffix continuesWord isOperator numberType
  opensComment splitExponent splitFraction splitSuffix startsWord)

/-- The longest beginning of a text that is of a kind. -/
structure Longest (P : List Char → Prop) (span text : List Char) : Prop where
  isPrefix : span <+: text
  holds : P span
  length_le : ∀ other, other <+: text → P other → other.length ≤ span.length

/-! ## Words, operators and numbers -/

/-- Letters, digits and underscores, of which a digit is not the first. -/
def IsWordText (span : List Char) : Prop :=
  (∀ c ∈ span, continuesWord c) ∧ ∃ c ∈ span.head?, startsWord c

/-- Operator characters that the text begins with, with no comment that begins among them. -/
def IsOperatorText (text span : List Char) : Prop :=
  (∀ c ∈ span, isOperator c) ∧ ∀ n < span.length, opensComment (text.drop n) = false

def IsHexadecimalText (span : List Char) : Prop := ∀ c ∈ span, Numeral.isHexDigit c

/-- The parts of a decimal number, of which only the first one has to be there. -/
structure IsNumber (whole fraction exponent suffix : List Char) : Prop where
  whole_ne : whole ≠ []
  isWhole : ∀ c ∈ whole, c.isDigit
  isFraction : IsFraction fraction
  isExponent : IsExponent exponent
  isSuffix : IsSuffix suffix

def IsDecimalText (span : List Char) : Prop :=
  ∃ whole fraction exponent suffix, span = whole ++ fraction ++ exponent ++ suffix ∧
    IsNumber whole fraction exponent suffix

/-- The kind of a word, and its type if it is a literal. -/
def wordKind (text : String) : Token.Kind × Option DataType :=
  if text ∈ ["if", "else", "while", "for"] then (.keyword, none)
  else if text ∈ ["true", "false"] then (.literal, some .boolean)
  else (.identifier, none)

/-- The token has all of the text from its place on that a token of its kind can have; `rest` is what is left.
A number with the letter `x` is known by its value, and the two kinds of literals in quotes end with the
quote. -/
inductive Token.Munches (t : Token) : List Char → List Char → Prop where
  | word {span rest : List Char} : Longest IsWordText span (span ++ rest) → t.text.toList = span →
      (t.kind, t.type) = wordKind t.text → Munches t span rest
  | operator {span rest : List Char} : Longest (IsOperatorText (span ++ rest)) span (span ++ rest) →
      span ≠ [] → t.text.toList = span → t.kind = .operator → Munches t span rest
  | hexadecimal {x : Char} {digits rest : List Char} : x = 'x' ∨ x = 'X' →
      Longest IsHexadecimalText digits (digits ++ rest) → digits ≠ [] → Stops Text.isAlphabetic rest →
      t.kind = .literal → t.type = some .int → t.text = toString (Numeral.value 16 digits) →
      Munches t ('0' :: x :: digits) rest
  | decimal {whole fraction exponent suffix rest : List Char} : IsNumber whole fraction exponent suffix →
      Longest IsDecimalText (whole ++ fraction ++ exponent ++ suffix)
        (whole ++ fraction ++ exponent ++ suffix ++ rest) →
      Stops Text.isAlphabetic rest → t.text.toList = whole ++ fraction ++ exponent ++ suffix →
      t.kind = .literal → t.type = some (numberType fraction exponent suffix) →
      Munches t (whole ++ fraction ++ exponent ++ suffix) rest
  | delimiter {c : Char} {rest : List Char} : t.kind = .delimiter → t.text.toList = [c] →
      Munches t [c] rest
  | quoted {span rest : List Char} : t.kind = .literal → t.type = some .string ∨ t.type = some .char →
      t.Spells span → Munches t span rest

/-- What is wrong with a number in hexadecimal that has these digits, in front of `rest`. -/
inductive HexadecimalFault (x : Char) (digits rest : List Char) : Fault → Prop where
  | digit : digits = [] → HexadecimalFault x digits rest .expectedHexDigit
  | letter {c : Char} : digits ≠ [] → c ∈ rest.head? → Text.isAlphabetic c →
      HexadecimalFault x digits rest .badNumber
  | beyond : digits ≠ [] → Stops Text.isAlphabetic rest → 2 ^ 31 - 1 < Numeral.value 16 digits →
      HexadecimalFault x digits rest (.badHexadecimal (String.ofList ('0' :: x :: digits)))

/-! ## Runs of characters -/

section Runs

variable {p : Char → Bool} {text rest other more : List Char}

theorem not_stops_iff : ¬ Stops p rest ↔ ∃ c ∈ rest.head?, p c := by
  simp [Stops]

theorem endsNumber_eq_false_iff :
    Lexeme.endsNumber rest = false ↔ ∃ c ∈ rest.head?, Text.isAlphabetic c := by
  rw [← not_stops_iff, ← Lexeme.endsNumber_iff, Bool.not_eq_true]

/-- A prefix that goes on behind `text` goes on with what `rest` begins with. -/
theorem prefix_append_cases (h : other <+: text ++ rest) :
    other.length ≤ text.length ∨ ∃ c more, other = text ++ c :: more ∧ c ∈ rest.head? := by
  rcases List.prefix_or_prefix_of_prefix h (List.prefix_append text rest) with hle | ⟨more, rfl⟩
  · exact .inl hle.length_le
  · cases more with
    | nil => simp
    | cons c more =>
      obtain ⟨tail, rfl⟩ := (List.prefix_append_right_inj text).mp h
      exact .inr ⟨c, more, rfl, rfl⟩

theorem longest_of_stops (hall : ∀ c ∈ text, p c) (hstops : Stops p rest) :
    Longest (fun span => ∀ c ∈ span, p c) text (text ++ rest) := by
  refine ⟨List.prefix_append text rest, hall, fun other hother hp => ?_⟩
  rcases prefix_append_cases hother with hle | ⟨c, more, rfl, hc⟩
  · exact hle
  · have hpc : p c := hp c (by simp)
    rw [hstops c hc] at hpc
    cases hpc

theorem longest_isWord {c : Char} (hc : startsWord c) (htext : ∀ d ∈ text, continuesWord d)
    (hstops : Stops continuesWord rest) : Longest IsWordText (c :: text) (c :: text ++ rest) := by
  have hfirst : continuesWord c := by
    simp only [startsWord, continuesWord, Char.isAlphanum, Bool.or_eq_true] at hc ⊢
    exact hc.imp_left .inl
  obtain ⟨hbegins, hall, hle⟩ := longest_of_stops (List.forall_mem_cons.mpr ⟨hfirst, htext⟩) hstops
  exact ⟨hbegins, ⟨hall, c, rfl, hc⟩, fun other hother hword => hle other hother hword.1⟩

end Runs

namespace Lexeme.IsRun

variable {text rest : List Char}

theorem stops (h : IsRun text rest) : Stops Lexeme.isOperator rest ∨ opensComment rest := by
  induction h with
  | stop hstops => exact hstops
  | more _ _ _ ih => exact ih

theorem isOperatorText (h : IsRun text rest) : IsOperatorText (text ++ rest) text := by
  refine ⟨h.isOperator, ?_⟩
  induction h with
  | stop => nofun
  | @more c text rest _ hopens _ ih =>
    intro n hn
    cases n with
    | zero => exact hopens
    | succ n => exact ih n (Nat.lt_of_succ_lt_succ hn)

theorem longest (h : IsRun text rest) : Longest (IsOperatorText (text ++ rest)) text (text ++ rest) := by
  refine ⟨List.prefix_append text rest, h.isOperatorText, fun other hother hop => ?_⟩
  rcases prefix_append_cases hother with hle | ⟨c, more, rfl, hc⟩
  · exact hle
  · obtain ⟨hall, hcomment⟩ := hop
    have hoperator : Lexeme.isOperator c := hall c (by simp)
    have hclosed := hcomment text.length (by simp)
    rw [List.drop_left] at hclosed
    rcases h.stops with hstops | hopens
    · rw [hstops c hc] at hoperator
      cases hoperator
    · rw [hopens] at hclosed
      cases hclosed

end Lexeme.IsRun

/-! ## Numbers, part by part -/

/-- The part with `more` behind it is all in the part that is taken; or it is that part, and `more` is in
the rest. -/
def StaysIn (part more taken rest : List Char) : Prop :=
  part ++ more <+: taken ∨ part = taken ∧ more <+: rest

section Parts

variable {p : Char → Bool} {part more taken rest cs : List Char}

/-- Nothing stands behind a part of which less is there than is taken. -/
theorem staysIn_nil (h : part <+: taken) : StaysIn part [] taken rest :=
  .inl (by rwa [List.append_nil])

theorem staysIn_takeWhile (hpart : ∀ c ∈ part, p c) (hmore : Stops p more) (h : part ++ more <+: cs) :
    StaysIn part more (cs.takeWhile p) (cs.dropWhile p) := by
  obtain ⟨tail, rfl⟩ := h
  rw [List.append_assoc, List.takeWhile_append_of_pos hpart, List.dropWhile_append_of_pos hpart]
  cases more with
  | nil => exact staysIn_nil (List.prefix_append part _)
  | cons c more =>
    have hstops : Stops p (c :: more ++ tail) := hmore
    rw [takeWhile_of_stops hstops, dropWhile_of_stops hstops, List.append_nil]
    exact .inr ⟨rfl, List.prefix_append (c :: more) tail⟩

theorem StaysIn.cons (h : StaysIn part more taken rest) (c : Char) :
    StaysIn (c :: part) more (c :: taken) rest := by
  rcases h with h | ⟨rfl, h⟩
  · exact .inl ((List.prefix_cons_inj c).mpr h)
  · exact .inr ⟨rfl, h⟩

theorem StaysIn.append_left (h : StaysIn part more taken rest) (front : List Char) :
    StaysIn (front ++ part) more (front ++ taken) rest := by
  induction front with
  | nil => exact h
  | cons c front ih => exact ih.cons c

theorem StaysIn.length_le {n : Nat} (h : StaysIn part more taken rest) (hmore : more <+: rest → more.length ≤ n) :
    (part ++ more).length ≤ taken.length + n := by
  rcases h with h | ⟨rfl, h⟩
  · have hle := h.length_le
    omega
  · have hle := hmore h
    rw [List.length_append]
    omega

theorem staysIn_splitFraction (hpart : IsFraction part) (hdigit : Stops Char.isDigit more)
    (hpoint : Stops (· = '.') more) (h : part ++ more <+: cs) :
    StaysIn part more (splitFraction cs).1 (splitFraction cs).2 := by
  cases hpart with
  | none =>
    unfold splitFraction
    split
    · cases more with
      | nil => exact staysIn_nil List.nil_prefix
      | cons c more =>
        obtain ⟨rfl, -⟩ := List.cons_prefix_cons.mp h
        simp [stops_cons] at hpoint
    · exact .inr ⟨rfl, h⟩
  | some hdigits =>
    obtain ⟨tail, rfl⟩ := h
    exact (staysIn_takeWhile hdigits hdigit (List.prefix_append _ tail)).cons '.'

theorem staysIn_splitExponent (hpart : IsExponent part) (hdigit : Stops Char.isDigit more)
    (hletter : Stops (fun c => c = 'e' || c = 'E') more) (h : part ++ more <+: cs) :
    StaysIn part more (splitExponent cs).1 (splitExponent cs).2 := by
  cases hpart with
  | none =>
    cases more with
    | nil => exact staysIn_nil List.nil_prefix
    | cons c more =>
      obtain ⟨tail, rfl⟩ := h
      have hnone : splitExponent ([] ++ (c :: more ++ tail)) = ([], c :: more ++ tail) :=
        Lexeme.splitExponent_append .none (fun _ => hletter) (absurd rfl)
      rw [List.nil_append] at hnone ⊢
      rw [hnone]
      exact .inr ⟨rfl, List.prefix_append (c :: more) tail⟩
  | @some e sign digits he hsign hne hdigits =>
    obtain ⟨tail, rfl⟩ := h
    have hhead : ∀ c ∈ (digits ++ (more ++ tail)).head?, c.isDigit := by
      obtain ⟨d, ds, rfl⟩ := List.exists_cons_of_ne_nil hne
      intro c hc
      obtain rfl := Option.some.inj hc
      exact hdigits d List.mem_cons_self
    have hsome : (digits ++ (more ++ tail)).takeWhile Char.isDigit ≠ [] := by
      rw [List.takeWhile_append_of_pos hdigits]
      exact List.append_ne_nil_of_left_ne_nil hne _
    have hsplit := Lexeme.splitSign_append hsign hhead
    simp only [List.cons_append, List.append_assoc, splitExponent, hsplit]
    rw [if_pos ⟨he, hsome⟩]
    have hstays := staysIn_takeWhile hdigits hdigit (List.prefix_append (digits ++ more) tail)
    rw [List.append_assoc] at hstays
    exact (hstays.append_left sign).cons e

theorem staysIn_splitSuffix (hpart : IsSuffix part) (h : part <+: cs) : part <+: (splitSuffix cs).1 := by
  cases hpart with
  | none => exact List.nil_prefix
  | small =>
    obtain ⟨tail, rfl⟩ := h
    exact List.prefix_rfl
  | large =>
    obtain ⟨tail, rfl⟩ := h
    exact List.prefix_rfl

end Parts

/-! ## Numbers -/

section Numbers

variable {fraction exponent suffix rest cs : List Char}

theorem stops_number {p : Char → Bool} (hf : IsFraction fraction) (he : IsExponent exponent)
    (hs : IsSuffix suffix) (hpoint : fraction ≠ [] → p '.' = false)
    (hletter : exponent ≠ [] → p 'e' = false ∧ p 'E' = false)
    (hend : suffix ≠ [] → p 'f' = false ∧ p 'F' = false) : Stops p (fraction ++ (exponent ++ suffix)) := by
  have hstops := @Lexeme.stops_parts _ _ _ _ [] hf he hs hpoint hletter hend fun _ _ _ => stops_nil p
  rwa [List.append_nil] at hstops

/-- No number is longer than the one that is cut off part by part, each part as far as it goes. -/
theorem length_le_parts {afterFraction afterExponent other : List Char}
    (hfraction : splitFraction (cs.dropWhile Char.isDigit) = (fraction, afterFraction))
    (hexponent : splitExponent afterFraction = (exponent, afterExponent))
    (hsuffix : splitSuffix afterExponent = (suffix, rest)) (hother : other <+: cs)
    (hnumber : IsDecimalText other) :
    other.length ≤ (cs.takeWhile Char.isDigit ++ fraction ++ exponent ++ suffix).length := by
  obtain ⟨whole', fraction', exponent', suffix', rfl, -, hw, hf, he, hs⟩ := hnumber
  have hdigit : Stops Char.isDigit (fraction' ++ (exponent' ++ suffix')) :=
    stops_number hf he hs (fun _ => rfl) (fun _ => ⟨rfl, rfl⟩) fun _ => ⟨rfl, rfl⟩
  have hdigit' : Stops Char.isDigit (exponent' ++ suffix') :=
    stops_number .none he hs (absurd rfl) (fun _ => ⟨rfl, rfl⟩) fun _ => ⟨rfl, rfl⟩
  have hdigit'' : Stops Char.isDigit suffix' :=
    stops_number .none .none hs (absurd rfl) (absurd rfl) fun _ => ⟨rfl, rfl⟩
  have hpoint : Stops (· = '.') (exponent' ++ suffix') :=
    stops_number .none he hs (absurd rfl) (fun _ => ⟨rfl, rfl⟩) fun _ => ⟨rfl, rfl⟩
  have hletter : Stops (fun c => c = 'e' || c = 'E') suffix' :=
    stops_number .none .none hs (absurd rfl) (absurd rfl) fun _ => ⟨rfl, rfl⟩
  have hsuffixes (h : suffix' <+: afterExponent) : suffix'.length ≤ suffix.length := by
    have hin := staysIn_splitSuffix hs h
    rw [hsuffix] at hin
    exact hin.length_le
  have hexponents (h : exponent' ++ suffix' <+: afterFraction) :
      (exponent' ++ suffix').length ≤ exponent.length + suffix.length := by
    have hin := staysIn_splitExponent he hdigit'' hletter h
    rw [hexponent] at hin
    exact hin.length_le hsuffixes
  have hfractions (h : fraction' ++ (exponent' ++ suffix') <+: cs.dropWhile Char.isDigit) :
      (fraction' ++ (exponent' ++ suffix')).length ≤ fraction.length + (exponent.length + suffix.length) := by
    have hin := staysIn_splitFraction hf hdigit' hpoint h
    rw [hfraction] at hin
    exact hin.length_le hexponents
  simp only [List.append_assoc] at hother ⊢
  have hle := (staysIn_takeWhile hw hdigit hother).length_le hfractions
  simpa only [List.length_append] using hle

/-- A text that begins with a digit begins with a number, and is refused only for the letter behind it. -/
theorem exists_longest_decimal {cs : List Char} (hne : cs.takeWhile Char.isDigit ≠ []) :
    ∃ whole fraction exponent suffix rest, cs = whole ++ fraction ++ exponent ++ suffix ++ rest ∧
      IsNumber whole fraction exponent suffix ∧
      Longest IsDecimalText (whole ++ fraction ++ exponent ++ suffix) cs ∧
      (∀ l, Lexeme.decimal cs = .ok l →
        l.text = whole ++ fraction ++ exponent ++ suffix ∧
          l.type = some (numberType fraction exponent suffix)) ∧
      ∀ fault, Lexeme.decimal cs = .error fault ↔
        fault = .badNumber ∧ ∃ c ∈ rest.head?, Text.isAlphabetic c := by
  obtain ⟨fraction, afterFraction, hfraction, hcs, isFraction, -⟩ :=
    Lexeme.splitFraction_sound (cs.dropWhile Char.isDigit)
  obtain ⟨exponent, afterExponent, hexponent, rfl, isExponent, -⟩ :=
    Lexeme.splitExponent_sound afterFraction
  obtain ⟨suffix, rest, hsuffix, rfl, isSuffix⟩ := Lexeme.splitSuffix_sound afterExponent
  have hnumber : IsNumber (cs.takeWhile Char.isDigit) fraction exponent suffix :=
    ⟨hne, fun d hd => mem_takeWhile hd, isFraction, isExponent, isSuffix⟩
  have hcut : cs = cs.takeWhile Char.isDigit ++ fraction ++ exponent ++ suffix ++ rest := by
    simp only [List.append_assoc]
    rw [← hcs, List.takeWhile_append_dropWhile]
  have hlongest : Longest IsDecimalText (cs.takeWhile Char.isDigit ++ fraction ++ exponent ++ suffix) cs :=
    ⟨⟨rest, hcut.symm⟩, ⟨_, _, _, _, rfl, hnumber⟩,
      fun _ hother hdecimal => length_le_parts hfraction hexponent hsuffix hother hdecimal⟩
  refine ⟨_, fraction, exponent, suffix, rest, hcut, hnumber, hlongest, fun l hl => ?_, fun fault => ?_⟩
  · unfold Lexeme.decimal at hl
    simp only [hfraction, hexponent, hsuffix] at hl
    rw [dif_neg hne] at hl
    split at hl
    · cases hl
      exact ⟨rfl, rfl⟩
    · cases hl
  · unfold Lexeme.decimal
    simp only [hfraction, hexponent, hsuffix]
    rw [dif_neg hne, ← endsNumber_eq_false_iff]
    cases Lexeme.endsNumber rest with
    | true => simp
    | false => simp [eq_comm]

end Numbers

theorem hexadecimal_error_iff {x : Char} {digits rest : List Char} {fault : Fault}
    (hdigits : ∀ c ∈ digits, Numeral.isHexDigit c) (hstops : Stops Numeral.isHexDigit rest) :
    Lexeme.hexadecimal x (digits ++ rest) = .error fault ↔ HexadecimalFault x digits rest fault := by
  unfold Lexeme.hexadecimal
  simp only [takeWhile_append_stops hdigits hstops, dropWhile_append_stops hdigits hstops]
  constructor
  · intro h
    split at h
    · next hnil =>
      cases h
      exact .digit hnil
    · next hne =>
      split at h
      · next hends =>
        cases h
        rw [Bool.not_eq_true', endsNumber_eq_false_iff] at hends
        obtain ⟨c, hc, hletter⟩ := hends
        exact .letter hne hc hletter
      · next hends =>
        rw [Bool.not_eq_true', Bool.not_eq_false, Lexeme.endsNumber_iff] at hends
        split at h
        · cases h
        · next hmax =>
          cases h
          refine .beyond hne hends ?_
          rw [Int32.toInt_maxValue] at hmax
          omega
  · intro h
    cases h with
    | digit hnil => rw [if_pos hnil]
    | letter hne hc hletter =>
      rw [if_neg hne, endsNumber_eq_false_iff.mpr ⟨_, hc, hletter⟩]
      rfl
    | beyond hne hends hbeyond =>
      rw [if_neg hne, Lexeme.endsNumber_iff.mpr hends, if_neg (by decide), if_neg]
      rw [Int32.toInt_maxValue]
      omega

/-! ## Tokens -/

theorem isSome_ofWord? {name : String} :
    (Keyword.ofWord? name).isSome ↔ name ∈ ["if", "else", "while", "for"] := by
  simp [Keyword.ofWord?, Keyword.all, Keyword.word, @eq_comm _ name]

theorem isSome_boolean? {name : String} : (boolean? name).isSome ↔ name ∈ ["true", "false"] := by
  unfold boolean?
  split
  · next h => simp [h]
  · split
    · next h => simp [h]
    · next hno hno' => simp [hno, hno']

theorem wordKind_word {c : Char} {text : List Char} (ht : ∀ d ∈ text, continuesWord d) :
    ((Lexeme.word c text).kind, (Lexeme.word c text).type) = wordKind (String.ofList (c :: text)) := by
  unfold Lexeme.word wordKind
  simp only [takeWhile_of_forall ht]
  cases hk : Keyword.ofWord? (String.ofList (c :: text)) with
  | some keyword =>
    have hmem := isSome_ofWord?.mp (hk ▸ rfl : (Keyword.ofWord? (String.ofList (c :: text))).isSome)
    rw [if_pos hmem]
  | none =>
    have hno : String.ofList (c :: text) ∉ ["if", "else", "while", "for"] := by
      rw [← isSome_ofWord?, hk]
      exact Bool.false_ne_true
    rw [if_neg hno]
    by_cases hmem : String.ofList (c :: text) ∈ ["true", "false"]
    · rw [if_pos hmem, if_pos (isSome_boolean?.mpr hmem)]
    · rw [if_neg hmem, if_neg (mt isSome_boolean?.mp hmem)]

theorem munches_of_isDecimal {whole fraction exponent suffix rest : List Char} {t : Token}
    (h : IsDecimal whole fraction exponent suffix rest) (hk : t.kind = .literal)
    (htext : t.text.toList = whole ++ fraction ++ exponent ++ suffix)
    (htype : t.type = some (numberType fraction exponent suffix)) :
    t.Munches (whole ++ fraction ++ exponent ++ suffix) rest := by
  have hpos : 0 < (whole ++ fraction ++ exponent ++ suffix).length := by
    have hwhole := List.length_pos_iff.mpr h.whole_ne
    simp only [List.length_append]
    omega
  have hread := Lexeme.decimal_complete h hpos
  have hne : (whole ++ fraction ++ exponent ++ suffix ++ rest).takeWhile Char.isDigit ≠ [] := by
    simp only [List.append_assoc]
    rw [List.takeWhile_append_of_pos h.isWhole]
    exact List.append_ne_nil_of_left_ne_nil h.whole_ne _
  obtain ⟨whole', fraction', exponent', suffix', rest', hcut, hnumber, hlongest, hdecimal, -⟩ :=
    exists_longest_decimal hne
  -- There is one number that is read, so the longest one is it.
  obtain ⟨htext', htype'⟩ := hdecimal _ hread
  dsimp only at htext' htype'
  rw [htext'] at hcut hlongest htext ⊢
  obtain rfl : rest = rest' := List.append_cancel_left hcut
  exact .decimal hnumber hlongest h.letter htext hk (htype.trans htype')

theorem munches_of_forms {span rest : List Char} {l : Lexeme} (h : Forms span l rest) (place : Location)
    (level : Nat) : (l.token place level).Munches span rest := by
  have htext : (l.token place level).text.toList = l.text := String.toList_ofList
  have hspells := h.spells place level
  cases h with
  | decimal _ hdecimal => exact munches_of_isDecimal hdecimal rfl htext rfl
  | hexadecimal hx hne hdigits hstops hletter =>
    exact .hexadecimal hx (longest_of_stops hdigits hstops) hne hletter rfl rfl rfl
  | @word c text _ hc ht hstops =>
    rw [Lexeme.text_word, takeWhile_of_forall ht] at htext
    refine .word (longest_isWord hc ht hstops) htext ?_
    rw [← String.ofList_toList (s := Token.text _), htext]
    exact wordKind_word ht
  | operator hrun => exact .operator hrun.longest (List.cons_ne_nil _ _) htext rfl
  | delimiter => exact .delimiter rfl htext
  | string => exact .quoted rfl (.inl rfl) hspells
  | character => exact .quoted rfl (.inr rfl) hspells

/-- The token is as long as it can be where it stands in the source. -/
def Token.IsMunch (file source : String) (t : Token) : Prop :=
  ∃ before span rest, source.toList = before ++ span ++ rest ∧ t.location = placeAfter file before ∧
    t.Munches span rest

theorem isMunch_of_mem {source file : String} {ts : List Token} (h : tokenize source file = .ok ts) :
    ∀ t ∈ ts, t.endsStatement = false → t.IsMunch file source := by
  intro t ht hword
  obtain ⟨before, span, rest, l, level, hsource, hforms, rfl⟩ := Token.standsIn_of_mem h ht hword
  exact ⟨before, span, rest, hsource, rfl, munches_of_forms hforms _ level⟩

/-! ## Faults -/

section Faults

variable {source file : String} {before after : List Char} {fault : Fault}

theorem Reaches.hexadecimal_fails {x : Char} (h : Reaches file source.toList before ('0' :: x :: after))
    (hx : x = 'x' ∨ x = 'X') :
    ∃ digits rest, after = digits ++ rest ∧ Longest IsHexadecimalText digits after ∧
      ∀ fault, tokenize source file = .error ⟨fault, placeAfter file before⟩ ↔
        HexadecimalFault x digits rest fault := by
  have hdigits : ∀ c ∈ after.takeWhile Numeral.isHexDigit, Numeral.isHexDigit c :=
    fun c hc => mem_takeWhile hc
  have hstops := stops_dropWhile Numeral.isHexDigit after
  have hcut : after.takeWhile Numeral.isHexDigit ++ after.dropWhile Numeral.isHexDigit = after :=
    List.takeWhile_append_dropWhile
  have hlongest := longest_of_stops hdigits hstops
  have hfault {fault : Fault} := @hexadecimal_error_iff x _ _ fault hdigits hstops
  rw [hcut] at hlongest hfault
  refine ⟨_, _, hcut.symm, hlongest, fun fault => ?_⟩
  rw [tokenize, h.word_fails_iff (by decide) rfl, ← hfault]
  rcases hx with rfl | rfl
  · rfl
  · rfl

theorem number_eq_decimal (hx : ¬ ['0', 'x'] <+: after) (hX : ¬ ['0', 'X'] <+: after) :
    Lexeme.number after = Lexeme.decimal after := by
  unfold Lexeme.number
  split
  · exact absurd ⟨_, rfl⟩ hx
  · exact absurd ⟨_, rfl⟩ hX
  · rfl

theorem Reaches.decimal_fails {c : Char} (h : Reaches file source.toList before (c :: after))
    (hc : c.isDigit) (hx : ¬ ['0', 'x'] <+: c :: after) (hX : ¬ ['0', 'X'] <+: c :: after) :
    ∃ span rest, c :: after = span ++ rest ∧ Longest IsDecimalText span (c :: after) ∧
      ∀ fault, tokenize source file = .error ⟨fault, placeAfter file before⟩ ↔
        fault = .badNumber ∧ ∃ d ∈ rest.head?, Text.isAlphabetic d := by
  have hne : (c :: after).takeWhile Char.isDigit ≠ [] := by
    rw [List.takeWhile_cons_of_pos hc]
    exact List.cons_ne_nil _ _
  obtain ⟨whole, fraction, exponent, suffix, rest, hcut, -, hlongest, -, hfault⟩ := exists_longest_decimal hne
  refine ⟨_, rest, hcut, hlongest, fun fault => ?_⟩
  have hopens : opensComment (c :: after) = false := by
    unfold opensComment
    split
    · next heq =>
      obtain ⟨rfl, -⟩ := List.cons.inj heq
      cases hc
    · next heq =>
      obtain ⟨rfl, -⟩ := List.cons.inj heq
      cases hc
    · rfl
  have hnext : Lexeme.next c after = Lexeme.decimal (c :: after) := by
    rw [Lexeme.next, if_pos hc, number_eq_decimal hx hX]
  rw [tokenize, h.word_fails_iff (not_break (p := Char.isDigit) (by decide) hc) hopens, hnext, hfault]

end Faults

/-- Every token is as long as it can be where it stands. A number in hexadecimal is refused where it begins if it
has no digits, is followed by a letter or exceeds 32 bits; any other number only if it is followed by a letter. -/
theorem tokenize_munches (source file : String) :
    (∀ ts, tokenize source file = .ok ts → ∀ t ∈ ts, t.endsStatement = false → t.IsMunch file source) ∧
    (∀ before x after, x = 'x' ∨ x = 'X' → Reaches file source.toList before ('0' :: x :: after) →
      ∃ digits rest, after = digits ++ rest ∧ Longest IsHexadecimalText digits after ∧
        ∀ fault, tokenize source file = .error ⟨fault, placeAfter file before⟩ ↔
          HexadecimalFault x digits rest fault) ∧
    ∀ before c after, c.isDigit → ¬ ['0', 'x'] <+: c :: after → ¬ ['0', 'X'] <+: c :: after →
      Reaches file source.toList before (c :: after) →
      ∃ span rest, c :: after = span ++ rest ∧ Longest IsDecimalText span (c :: after) ∧
        ∀ fault, tokenize source file = .error ⟨fault, placeAfter file before⟩ ↔
          fault = .badNumber ∧ ∃ d ∈ rest.head?, Text.isAlphabetic d :=
  ⟨fun _ h => isMunch_of_mem h, fun _ _ _ hx h => h.hexadecimal_fails hx,
    fun _ _ _ hc hx hX h => h.decimal_fails hc hx hX⟩

/-- A float in front of an operator that a comment ends, a number beyond 32 bits, and an exponent without digits. -/
theorem tokenize_munches_numbers :
    (∃ ts, tokenize "1.5e3f<=//" "" = .ok ts ∧
      ts.map (fun t => (t.text, t.type)) = [("1.5e3f", some .float), ("<=", none), ("", none), ("", none)] ∧
      ∀ t ∈ ts, t.endsStatement = false → t.IsMunch "" "1.5e3f<=//") ∧
    Reaches "" "0x80000000".toList [] ('0' :: 'x' :: "80000000".toList) ∧
    (∃ digits rest, "80000000".toList = digits ++ rest ∧ Longest IsHexadecimalText digits "80000000".toList ∧
      ∀ fault, tokenize "0x80000000" "" = .error ⟨fault, placeAfter "" []⟩ ↔
        HexadecimalFault 'x' digits rest fault) ∧
    Reaches "" "1e+".toList [] ['1', 'e', '+'] ∧
    ∃ span rest, ['1', 'e', '+'] = span ++ rest ∧ Longest IsDecimalText span ['1', 'e', '+'] ∧
      ∀ fault, tokenize "1e+" "" = .error ⟨fault, placeAfter "" []⟩ ↔
        fault = .badNumber ∧ ∃ d ∈ rest.head?, Text.isAlphabetic d := by
  have hok : ((tokenize "1.5e3f<=//" "").map fun ts => ts.map fun t => (t.text, t.type)).toOption =
      some [("1.5e3f", some .float), ("<=", none), ("", none), ("", none)] := by
    decide +kernel
  have hhex : "0x80000000".toList = '0' :: 'x' :: "80000000".toList := by decide +kernel
  have hdec : "1e+".toList = ['1', 'e', '+'] := by decide +kernel
  have hreachesHex : Reaches "" "0x80000000".toList [] ('0' :: 'x' :: "80000000".toList) :=
    hhex ▸ reaches_start "" _
  have hreachesDec : Reaches "" "1e+".toList [] ['1', 'e', '+'] := hdec ▸ reaches_start "" _
  obtain ⟨ts, hs, htexts⟩ := Execution.exists_ok_of_map hok
  refine ⟨⟨ts, hs, htexts, (tokenize_munches "1.5e3f<=//" "").1 ts hs⟩, hreachesHex, ?_, hreachesDec, ?_⟩
  · exact (tokenize_munches "0x80000000" "").2.1 [] 'x' _ (.inl rfl) hreachesHex
  · exact (tokenize_munches "1e+" "").2.2 [] '1' _ rfl (by decide) (by decide) hreachesDec

end Offside
