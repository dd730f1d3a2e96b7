import Offside.Proofs.NumberReading

/-!
# Reading lexemes

Scanning finds the lexemes of the lexical grammar, and no others.
-/

namespace Offside

set_option autoImplicit false

namespace Lexeme

/-! ## Words and operators -/

theorem word_append {c : Char} {text rest : List Char} (ht : ∀ d ∈ text, continuesWord d)
    (hr : Stops continuesWord rest) : word c (text ++ rest) = word c text := by
  unfold word
  simp only [takeWhile_append_stops ht hr, takeWhile_of_forall ht]

theorem isRun_operatorRun (cs : List Char) :
    ∃ rest, cs = operatorRun cs ++ rest ∧ IsRun (operatorRun cs) rest := by
  induction cs with
  | nil => exact ⟨[], rfl, .stop (.inl (stops_nil _))⟩
  | cons c cs ih =>
    rw [operatorRun]
    split
    · next h =>
      obtain ⟨rest, hcs, hrun⟩ := ih
      simp only [Bool.and_eq_true, Bool.not_eq_true'] at h
      refine ⟨rest, by rw [List.cons_append, ← hcs], .more h.1 ?_ hrun⟩
      rw [← hcs]
      exact h.2
    · next h =>
      refine ⟨c :: cs, rfl, .stop ?_⟩
      rw [stops_cons]
      cases ho : isOperator c with
      | false => exact .inl rfl
      | true => exact .inr (by simpa [ho] using h)

theorem operatorRun_of_isRun {text rest : List Char} (h : IsRun text rest) :
    operatorRun (text ++ rest) = text := by
  induction h with
  | @stop rest hstop =>
    rw [List.nil_append]
    cases rest with
    | nil => rfl
    | cons c rest =>
      rw [operatorRun, if_neg]
      rcases hstop with hstop | hopens
      · simp [stops_cons.mp hstop]
      · simp [hopens]
  | @more c text rest hc hopens _ ih =>
    rw [List.cons_append, operatorRun, ih, if_pos (by simp [hc, hopens])]

/-! ## Literals in quotes -/

theorem stringBody?_sound {cs body : List Char} (h : stringBody? cs = some body) :
    ∃ rest, cs = body ++ '"' :: rest ∧ IsStringBody body := by
  induction hn : cs.length using Nat.strongRecOn generalizing cs body with
  | ind n ih =>
    unfold stringBody? at h
    split at h
    · cases h
    · cases h
      exact ⟨_, rfl, .nil⟩
    · cases h
    · cases h
    · next c cs hc =>
      obtain ⟨text, htext, rfl⟩ := Option.map_eq_some_iff.mp h
      obtain ⟨rest, rfl, hbody⟩ := ih _ (by simp only [← hn, List.length_cons]; omega) htext rfl
      refine ⟨rest, rfl, .escaped ?_ hbody⟩
      rintro rfl
      exact hc rfl
    · next c cs hquote hline hend hescape =>
      obtain ⟨text, htext, rfl⟩ := Option.map_eq_some_iff.mp h
      obtain ⟨rest, rfl, hbody⟩ := ih _ (by simp [← hn]) htext rfl
      refine ⟨rest, rfl, .plain ?_ ?_ ?_ hbody⟩
      · exact hquote
      · rintro rfl
        cases text with
        | nil => exact hescape _ _ rfl rfl
        | cons d text => exact hescape _ _ rfl rfl
      · exact hline

theorem stringBody?_complete {body rest : List Char} (h : IsStringBody body) :
    stringBody? (body ++ '"' :: rest) = some body := by
  induction h with
  | nil => simp [stringBody?]
  | @plain c text hquote hescape hline _ ih =>
    rw [List.cons_append, stringBody?, ih]
    · rfl
    · exact hquote
    · exact hline
    · exact fun _ heq _ => absurd heq hescape
    · exact fun _ _ heq _ => absurd heq hescape
  | @escaped c text hline _ ih =>
    rw [List.cons_append, List.cons_append, stringBody?, ih]
    · rfl
    · exact hline

theorem string_eq_ok {cs : List Char} {l : Lexeme} :
    string cs = .ok l ↔ ∃ body rest, '"' :: cs = '"' :: body ++ ['"'] ++ rest ∧ IsStringBody body ∧
      l = ⟨body.length + 2, .literal, body, some .string, none, Nat.succ_pos _⟩ := by
  unfold string
  constructor
  · intro h
    split at h
    · next body hbody =>
      cases h
      obtain ⟨rest, rfl, hb⟩ := stringBody?_sound hbody
      exact ⟨body, rest, by simp, hb, rfl⟩
    · cases h
  · rintro ⟨body, rest, hcs, hb, rfl⟩
    have hcs : cs = body ++ '"' :: rest := by simpa using hcs
    rw [hcs, stringBody?_complete hb]

theorem unit_sound {c : Char} {cs text : List Char} (hquote : c ≠ '\'') (hline : c ≠ '\n')
    (h : unit (c :: cs) = .ok text) : IsUnit text ∧ ∃ rest, c :: cs = text ++ rest := by
  unfold unit at h
  split at h
  · next d ds heq =>
    obtain ⟨rfl, rfl⟩ := List.cons.inj heq
    split at h
    · next hletter =>
      cases h
      exact ⟨.letter hletter, ds, rfl⟩
    · split at h
      · next hdigit =>
        dsimp only at h
        split at h
        · next hcode =>
          cases h
          have hprefix : Text.Escape.digits (d :: ds) <+: d :: ds :=
            (List.take_prefix 3 _).trans (List.takeWhile_prefix _)
          refine ⟨.code ?_ (List.length_take_le 3 _) ?_ hcode, ?_⟩
          · simp [Text.Escape.digits, hdigit]
          · exact fun x hx => mem_takeWhile (List.mem_of_mem_take hx)
          · obtain ⟨rest, hrest⟩ := hprefix
            exact ⟨rest, by rw [List.cons_append, hrest]⟩
        · cases h
      · cases h
  · cases h
  · next hescape hlast =>
    cases h
    refine ⟨.plain hquote ?_ hline, cs, rfl⟩
    rintro rfl
    cases cs with
    | nil => exact hlast rfl
    | cons d ds => exact hescape d ds rfl

theorem unit_complete {text rest : List Char} (h : IsUnit text) :
    unit (text ++ '\'' :: rest) = .ok text := by
  cases h with
  | @plain c hquote hescape hline =>
    rw [List.singleton_append, unit]
    · rfl
    · exact fun _ _ heq => hescape (List.cons.inj heq).1
    · exact fun heq => hescape (List.cons.inj heq).1
  | letter hletter =>
    rw [List.cons_append, List.cons_append, unit, if_pos hletter]
  | @code digits hne hlength hd hcode =>
    cases digits with
    | nil => exact absurd rfl hne
    | cons d ds =>
      have hdigit : d.isDigit = true := hd d List.mem_cons_self
      have hnot : (Text.Escape.letter? d).isSome = false := by
        cases hl : Text.Escape.letter? d with
        | none => rfl
        | some e =>
          unfold Text.Escape.letter? at hl
          split at hl <;> first | (exfalso; revert hdigit; decide) | cases hl
      have hdigits : Text.Escape.digits (d :: (ds ++ '\'' :: rest)) = d :: ds := by
        have hstop : Stops Char.isDigit ('\'' :: rest) := stops_cons.mpr (by decide)
        have htake := takeWhile_append_stops hd hstop
        rw [List.cons_append] at htake
        rw [Text.Escape.digits, htake, List.take_of_length_le hlength]
      rw [List.cons_append, List.cons_append, unit, if_neg (by simp [hnot]), if_pos hdigit]
      simp only [hdigits]
      rw [if_pos hcode]

theorem units_cons {c : Char} {cs : List Char} (hquote : c ≠ '\'') (hline : c ≠ '\n') :
    units (c :: cs) =
      match unit (c :: cs) with
      | .error fault => .error fault
      | .ok text => (units ((c :: cs).drop text.length)).map (text :: ·) := by
  rw [units, if_neg hline, if_neg hquote]
  split <;> simp_all

theorem units_quote (rest : List Char) : units ('\'' :: rest) = .ok [] := by
  rw [units, if_neg (by decide), if_pos rfl]

theorem units_sound {cs : List Char} {texts : List (List Char)} (h : units cs = .ok texts) :
    (∀ text ∈ texts, IsUnit text) ∧ ∃ rest, cs = texts.flatten ++ '\'' :: rest := by
  induction hn : cs.length using Nat.strongRecOn generalizing cs texts with
  | ind n ih =>
    cases cs with
    | nil => simp [units] at h
    | cons c cs =>
      by_cases hquote : c = '\''
      · rw [hquote, units_quote] at h
        cases h
        exact ⟨List.forall_mem_nil _, cs, by rw [hquote]; rfl⟩
      by_cases hline : c = '\n'
      · simp [units, hline] at h
      rw [units_cons hquote hline] at h
      split at h
      · cases h
      · next text hunit =>
        cases hm : units ((c :: cs).drop text.length) with
        | error fault => simp [hm, Except.map] at h
        | ok more =>
          simp only [hm, Except.map, Except.ok.injEq] at h
          subst h
          have hlt : ((c :: cs).drop text.length).length < n := by
            have hpos := length_unit_pos hunit
            simp only [List.length_drop, ← hn, List.length_cons]
            omega
          obtain ⟨hu, after, hcs⟩ := unit_sound hquote hline hunit
          obtain ⟨hall, rest, hrest⟩ := ih _ hlt hm rfl
          refine ⟨List.forall_mem_cons.mpr ⟨hu, hall⟩, rest, ?_⟩
          rw [hcs, List.drop_left] at hrest
          rw [hcs, hrest, List.flatten_cons, List.append_assoc]

theorem IsUnit.first {text : List Char} (h : IsUnit text) :
    ∃ c more, text = c :: more ∧ c ≠ '\'' ∧ c ≠ '\n' := by
  cases h with
  | plain hquote _ hline => exact ⟨_, _, rfl, hquote, hline⟩
  | letter => exact ⟨_, _, rfl, by decide, by decide⟩
  | code => exact ⟨_, _, rfl, by decide, by decide⟩

theorem character_eq_ok {cs : List Char} {l : Lexeme} :
    character cs = .ok l ↔ ∃ text rest, '\'' :: cs = '\'' :: text ++ ['\''] ++ rest ∧ IsUnit text ∧
      l = ⟨text.length + 2, .literal, text, some .char, none, Nat.succ_pos _⟩ := by
  constructor
  · intro h
    unfold character at h
    cases hu : units cs with
    | error fault => simp [hu, bind, Except.bind] at h
    | ok texts =>
      simp only [hu, bind, Except.bind] at h
      split at h
      · next text =>
        cases h
        obtain ⟨hall, rest, rfl⟩ := units_sound hu
        exact ⟨text, rest, by simp, hall text List.mem_cons_self, rfl⟩
      · cases h
  · rintro ⟨text, rest, hcs, hunit, rfl⟩
    have hcs : cs = text ++ '\'' :: rest := by simpa using hcs
    have hone : units (text ++ '\'' :: rest) = .ok [text] := by
      have hcomplete : unit (text ++ '\'' :: rest) = .ok text := unit_complete hunit
      obtain ⟨c, more, rfl, hquote, hline⟩ := hunit.first
      rw [List.cons_append] at hcomplete ⊢
      rw [units_cons hquote hline, hcomplete]
      simp only
      rw [← List.cons_append, List.drop_left, units_quote]
      rfl
    unfold character
    rw [hcs, hone]
    rfl

/-! ## Any lexeme -/

theorem not_digit_of_startsWord {c : Char} (h : startsWord c) : c.isDigit = false := by
  cases hd : c.isDigit with
  | false => rfl
  | true =>
    simp only [startsWord, Bool.or_eq_true, decide_eq_true_eq] at h
    rcases h with h | rfl
    · unfold Char.isAlpha Char.isUpper Char.isLower at h
      simp only [Char.isDigit, Bool.or_eq_true, Bool.and_eq_true, decide_eq_true_eq, ge_iff_le, UInt32.le_iff_toNat_le, Char.reduceVal,
        UInt32.reduceToNat] at h hd
      omega
    · revert hd
      decide

theorem class_of_isOperator {c : Char} (h : isOperator c) :
    c.isDigit = false ∧ startsWord c = false := by
  simp only [isOperator, List.contains_eq_mem, List.mem_cons, List.not_mem_nil, or_false,
    decide_eq_true_eq] at h
  rcases h with rfl | rfl | rfl | rfl | rfl | rfl | rfl | rfl | rfl | rfl | rfl | rfl <;> decide

theorem class_of_isDelimiter {c : Char} (h : isDelimiter c) :
    c.isDigit = false ∧ startsWord c = false ∧ isOperator c = false := by
  simp only [isDelimiter, List.contains_eq_mem, List.mem_cons, List.not_mem_nil, or_false,
    decide_eq_true_eq] at h
  rcases h with rfl | rfl | rfl | rfl | rfl | rfl | rfl | rfl | rfl | rfl | rfl <;> decide

theorem next_sound {c : Char} {cs : List Char} {l : Lexeme} (hc : opensComment (c :: cs) = false)
    (h : next c cs = .ok l) : ∃ span rest, c :: cs = span ++ rest ∧ Forms span l rest := by
  unfold next at h
  split at h
  · exact number_sound h
  split at h
  · next hword =>
    cases h
    refine ⟨c :: cs.takeWhile continuesWord, cs.dropWhile continuesWord, ?_, ?_⟩
    · rw [List.cons_append, List.takeWhile_append_dropWhile]
    · have ht : ∀ d ∈ cs.takeWhile continuesWord, continuesWord d := fun d hd => mem_takeWhile hd
      have hsame := word_append (c := c) ht (stops_dropWhile continuesWord cs)
      rw [List.takeWhile_append_dropWhile] at hsame
      rw [hsame]
      exact .word hword ht (stops_dropWhile _ _)
  split at h
  · next hoperator =>
    cases h
    obtain ⟨rest, hcs, hrun⟩ := isRun_operatorRun cs
    refine ⟨c :: operatorRun cs, rest, by rw [List.cons_append, ← hcs], .operator ?_⟩
    exact .more hoperator (by rwa [← hcs]) hrun
  split at h
  · next hdelimiter =>
    cases h
    exact ⟨[c], cs, rfl, .delimiter hdelimiter⟩
  split at h
  · next hquote =>
    subst hquote
    obtain ⟨body, rest, hcs, hbody, rfl⟩ := string_eq_ok.mp h
    exact ⟨_, rest, hcs, .string hbody⟩
  split at h
  · next hquote =>
    subst hquote
    obtain ⟨text, rest, hcs, hunit, rfl⟩ := character_eq_ok.mp h
    exact ⟨_, rest, hcs, .character hunit⟩
  · cases h

theorem next_complete {c : Char} {cs span rest : List Char} {l : Lexeme}
    (hcs : c :: cs = span ++ rest) (h : Forms span l rest) : next c cs = .ok l := by
  unfold next
  cases h with
  | @decimal whole _ _ _ _ _ hd =>
    have hdigit : c.isDigit = true := by
      cases whole with
      | nil => exact absurd rfl hd.whole_ne
      | cons d whole =>
        obtain ⟨rfl, -⟩ := List.cons.inj hcs
        exact hd.isWhole _ List.mem_cons_self
    rw [if_pos hdigit, hcs, number_of_isDecimal hd]
    exact decimal_complete hd _
  | @hexadecimal x digits _ hx hne hd hstop hletter hmax =>
    obtain ⟨rfl, rfl⟩ := List.cons.inj hcs
    rw [if_pos (by decide)]
    rcases hx with rfl | rfl
    · exact hexadecimal_complete hne hd hstop hletter hmax
    · exact hexadecimal_complete hne hd hstop hletter hmax
  | word hc ht hr =>
    obtain ⟨rfl, rfl⟩ := List.cons.inj hcs
    rw [not_digit_of_startsWord hc, if_neg (by decide), if_pos hc]
    exact congrArg Except.ok (word_append ht hr)
  | @operator _ text _ hrun =>
    obtain ⟨rfl, rfl⟩ := List.cons.inj hcs
    cases hrun with
    | more hc _ hrun =>
      obtain ⟨hdigit, hword⟩ := class_of_isOperator hc
      rw [hdigit, hword, if_neg (by decide), if_neg (by decide), if_pos hc]
      have hread := operatorRun_of_isRun hrun
      change Except.ok (operator c (text ++ rest)) = _
      unfold operator
      simp only [hread]
  | delimiter hc =>
    obtain ⟨rfl, rfl⟩ := List.cons.inj hcs
    obtain ⟨hdigit, hword, hoperator⟩ := class_of_isDelimiter hc
    rw [hdigit, hword, hoperator, if_neg (by decide), if_neg (by decide), if_neg (by decide),
      if_pos hc]
  | @string body _ hbody =>
    have hc : c = '"' := (List.cons.inj hcs).1
    subst hc
    exact string_eq_ok.mpr ⟨body, rest, hcs, hbody, rfl⟩
  | @character text _ hunit =>
    have hc : c = '\'' := (List.cons.inj hcs).1
    subst hc
    exact character_eq_ok.mpr ⟨text, rest, hcs, hunit, rfl⟩

end Lexeme

end Offside
