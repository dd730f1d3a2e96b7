import Offside.Proofs.Scanning

/-!
# Loops of a cursor

The loops in which a cursor passes over the characters of a lexeme, one accepted character after the other, and how
far each of them goes, told by the text in front of the cursor.
-/

namespace Offside.Source.Cursor

set_option autoImplicit false

variable {p : Char → Bool} {c c' : Cursor}

/-! ## Passing over characters -/

/-- A cursor that has passed over characters has them in its lexeme. -/
theorem advanceN_eq (n : Nat) (c : Cursor) :
    c.advanceN n = { c with
      taken := (c.rest.take n).reverse ++ c.taken
      rest := c.rest.drop n
      column := c.column + (c.rest.take n).length } := by
  induction n generalizing c with
  | zero => simp [advanceN]
  | succ n ih =>
    obtain ⟨done, taken, rest, line, column⟩ := c
    rw [advanceN, ih]
    cases rest with
    | nil => simp [advance]
    | cons x rest =>
      simp only [advance, List.take_succ_cons, List.drop_succ_cons, List.reverse_cons, List.append_assoc,
        List.singleton_append, List.length_cons, mk.injEq, true_and]
      omega

theorem advanceN_advanceN (m n : Nat) (c : Cursor) : (c.advanceN m).advanceN n = c.advanceN (m + n) := by
  induction m generalizing c with
  | zero => rw [Nat.zero_add, advanceN]
  | succ m ih => rw [advanceN, ih, Nat.succ_add, advanceN]

theorem advance_eq_advanceN (c : Cursor) : c.advance = c.advanceN 1 := rfl

theorem rest_behind {text rest : List Char} (h : c.rest = text ++ rest) : (c.advanceN text.length).rest = rest := by
  rw [rest_advanceN, h, List.drop_left]

theorem lexeme_advanceN (n : Nat) (c : Cursor) : (c.advanceN n).lexeme = c.lexeme ++ c.rest.take n := by
  rw [advanceN_eq]
  simp [lexeme]

/-- A lexeme may as well be forgotten in front of further characters as behind them. -/
theorem drop_advanceN_drop (n : Nat) (c : Cursor) : (c.drop.advanceN n).drop = (c.advanceN n).drop := by
  simp [advanceN_eq, drop]

theorem drop_eq_self (h : c.taken = []) : c.drop = c := by
  obtain ⟨done, taken, rest, line, column⟩ := c
  obtain rfl : taken = [] := h
  rfl

theorem length_rest_advanceN (n : Nat) (h : c.atEnd = false) :
    (c.advanceN (n + 1)).rest.length < c.rest.length := by
  have hpos : 0 < c.rest.length := List.length_pos_iff.mpr (List.isEmpty_eq_false_iff.mp h)
  rw [rest_advanceN, List.length_drop]
  omega

/-! ## What the next character is -/

/-- The sentinel is in none of the texts that are looked for. -/
theorem startsWith_eq {xs : List Char} (h : sentinel ∉ xs) (c : Cursor) : c.startsWith xs = xs.isPrefixOf c.rest := by
  have hprefix : ∀ rest, xs.isPrefixOf (rest ++ [sentinel]) = xs.isPrefixOf rest := by
    induction xs with
    | nil => simp
    | cons x xs ih =>
      rw [List.mem_cons, not_or] at h
      intro rest
      cases rest with
      | nil => simp [List.isPrefixOf, Ne.symm h.1]
      | cons y rest => simp [List.isPrefixOf, ih h.2 rest]
  exact hprefix c.rest

theorem opensComment_eq (c : Cursor) :
    Lexeme.opensComment c.rest = (c.startsWith ['/', '/'] || c.startsWith ['/', '*']) := by
  rw [startsWith_eq (by decide), startsWith_eq (by decide)]
  unfold Lexeme.opensComment
  split
  · next hrest => simp [hrest, List.isPrefixOf]
  · next hrest => simp [hrest, List.isPrefixOf]
  · next hline hblock =>
    rcases hrest : c.rest with _ | ⟨x, _ | ⟨y, rest⟩⟩
    · rfl
    · simp [List.isPrefixOf]
    · have h₁ : ¬ ('/' = x ∧ '/' = y) := fun h => hline rest (by rw [hrest, ← h.1, ← h.2])
      have h₂ : ¬ ('/' = x ∧ '*' = y) := fun h => hblock rest (by rw [hrest, ← h.1, ← h.2])
      simp only [List.isPrefixOf, Bool.and_true]
      symm
      rw [Bool.or_eq_false_iff]
      exact ⟨by simpa using h₁, by simpa using h₂⟩

theorem holds_true (h : c.holds p) : ∃ x rest, c.rest = x :: rest ∧ p x := by
  unfold holds at h
  split at h
  · cases h
  · next x rest hrest => exact ⟨x, rest, hrest, h⟩

theorem holds_false (h : ¬ c.holds p) : Stops p c.rest := by
  intro x hx
  obtain ⟨rest, hrest⟩ := List.head?_eq_some_iff.mp hx
  simpa [holds, hrest] using h

/-- At the end of a text or of a line. -/
theorem atLineEnd (h : c.atEnd || c.check '\n') : c.rest = [] ∨ ∃ rest, c.rest = '\n' :: rest := by
  rcases Bool.or_eq_true_iff.mp h with hend | hline
  · exact .inl (List.isEmpty_iff.mp hend)
  · obtain ⟨x, rest, hrest, hx⟩ := holds_true hline
    obtain rfl : x = '\n' := by simpa using hx
    exact .inr ⟨rest, hrest⟩

theorem not_atLineEnd (h : ¬ (c.atEnd || c.check '\n')) : ∃ x rest, c.rest = x :: rest ∧ x ≠ '\n' := by
  rw [Bool.or_eq_true, not_or] at h
  rcases hrest : c.rest with _ | ⟨x, rest⟩
  · exact absurd (List.isEmpty_iff.mpr hrest) h.1
  · exact ⟨x, rest, rfl, by simpa using holds_false h.2 x (by simp [hrest])⟩

theorem acceptIf_true (h : c.acceptIf p = (true, c')) :
    c' = c.advance ∧ ∃ x rest, c.rest = x :: rest ∧ p x := by
  unfold acceptIf at h
  split at h
  · next hp =>
    cases h
    exact ⟨rfl, holds_true hp⟩
  · cases h

theorem acceptIf_false (h : c.acceptIf p = (false, c')) : c' = c ∧ Stops p c.rest := by
  unfold acceptIf at h
  split at h
  · cases h
  · next hp =>
    cases h
    exact ⟨rfl, holds_false hp⟩

theorem length_rest_acceptIf (h : c.acceptIf p = (true, c')) : c'.rest.length < c.rest.length := by
  obtain ⟨rfl, x, rest, hrest, -⟩ := acceptIf_true h
  rw [rest_advance, hrest]
  exact Nat.lt_succ_self _

/-! ## Runs of characters -/

/-- Takes characters as long as `p` holds of them. -/
def acceptWhile (p : Char → Bool) (c : Cursor) : Cursor :=
  match _h : c.acceptIf p with
  | (true, c') => acceptWhile p c'
  | (false, c') => c'
termination_by c.rest.length
decreasing_by exact length_rest_acceptIf _h

theorem acceptWhile_eq (p : Char → Bool) (c : Cursor) : c.acceptWhile p = c.advanceN (c.rest.takeWhile p).length := by
  fun_induction acceptWhile p c with
  | case1 c c' h ih =>
    obtain ⟨rfl, x, rest, hrest, hx⟩ := acceptIf_true h
    rw [ih, rest_advance, hrest, List.tail_cons, List.takeWhile_cons_of_pos hx, List.length_cons, advanceN]
  | case2 c c' h =>
    obtain ⟨rfl, hstops⟩ := acceptIf_false h
    rw [takeWhile_of_stops hstops]
    rfl

theorem rest_acceptWhile (p : Char → Bool) (c : Cursor) : (c.acceptWhile p).rest = c.rest.dropWhile p := by
  rw [acceptWhile_eq, rest_advanceN, Scanner.drop_length_takeWhile]

theorem length_rest_acceptWhile (p : Char → Bool) (c : Cursor) :
    (c.acceptWhile p).rest.length ≤ c.rest.length := by
  rw [rest_acceptWhile]
  exact (List.dropWhile_sublist p).length_le

/-- Takes spaces and tabs, and counts them. -/
def acceptIndent (spaces tabs : Nat) (c : Cursor) : Nat × Nat × Cursor :=
  match _hspace : c.accept ' ' with
  | (true, c') => acceptIndent (spaces + 1) tabs c'
  | (false, c') =>
    match _htab : c'.accept '\t' with
    | (true, c'') => acceptIndent spaces (tabs + 1) c''
    | (false, c'') => (spaces, tabs, c'')
termination_by c.rest.length
decreasing_by
  · exact length_rest_acceptIf _hspace
  · obtain ⟨rfl, -⟩ := acceptIf_false _hspace
    exact length_rest_acceptIf _htab

theorem acceptIndent_eq (spaces tabs : Nat) (c : Cursor) :
    c.acceptIndent spaces tabs =
      (spaces + (c.rest.takeWhile isIndent).count ' ', tabs + (c.rest.takeWhile isIndent).count '\t',
        c.acceptWhile isIndent) := by
  rw [acceptWhile_eq]
  fun_induction acceptIndent spaces tabs c with
  | case1 spaces tabs c c' h ih =>
    obtain ⟨rfl, x, rest, hrest, hx⟩ := acceptIf_true h
    obtain rfl : x = ' ' := by simpa using hx
    rw [ih, rest_advance, hrest, List.tail_cons, List.takeWhile_cons_of_pos (by decide)]
    simp [advanceN]
    omega
  | case2 spaces tabs c c' hspace c'' h ih =>
    obtain ⟨rfl, -⟩ := acceptIf_false hspace
    obtain ⟨rfl, x, rest, hrest, hx⟩ := acceptIf_true h
    obtain rfl : x = '\t' := by simpa using hx
    rw [ih, rest_advance, hrest, List.tail_cons, List.takeWhile_cons_of_pos (by decide)]
    simp [advanceN]
    omega
  | case3 spaces tabs c c' hspace c'' htab =>
    obtain ⟨rfl, hspace⟩ := acceptIf_false hspace
    obtain ⟨rfl, htab⟩ := acceptIf_false htab
    have hstops : Stops isIndent c''.rest := by
      intro x hx
      have h₁ := hspace x hx
      have h₂ := htab x hx
      simp_all [isIndent]
    rw [takeWhile_of_stops hstops]
    rfl

/-- The operator characters from here on, but nothing of a comment. -/
def acceptOperators (c : Cursor) : Cursor :=
  if c.startsWith ['/', '/'] || c.startsWith ['/', '*'] then c
  else
    match _h : c.acceptIf Lexeme.isOperator with
    | (true, c') => acceptOperators c'
    | (false, c') => c'
termination_by c.rest.length
decreasing_by exact length_rest_acceptIf _h

theorem acceptOperators_eq (c : Cursor) : c.acceptOperators = c.advanceN (Lexeme.operatorRun c.rest).length := by
  fun_induction acceptOperators c with
  | case1 c h =>
    rw [← opensComment_eq] at h
    have hrun : Lexeme.operatorRun c.rest = [] := by
      unfold Lexeme.operatorRun
      split
      · rfl
      · next hrest => rw [if_neg (by simp [← hrest, h])]
    rw [hrun]
    rfl
  | case2 c h c' hc ih =>
    rw [← opensComment_eq] at h
    obtain ⟨rfl, x, rest, hrest, hx⟩ := acceptIf_true hc
    rw [ih, rest_advance, hrest, List.tail_cons, Lexeme.operatorRun, if_pos (by simp_all), List.length_cons, advanceN]
  | case3 c h c' hc =>
    obtain ⟨rfl, hstops⟩ := acceptIf_false hc
    have hrun : Lexeme.operatorRun c'.rest = [] := by
      unfold Lexeme.operatorRun
      split
      · rfl
      · next x rest hrest =>
        have hx : Lexeme.isOperator x = false := hstops x (by simp [hrest])
        rw [if_neg (by simp [hx])]
    rw [hrun]
    rfl

/-! ## Strings -/

/-- Nothing that ends a string, or a line, or makes the next character one of the string. -/
def isPlain (x : Char) : Bool := !(['\\', '"', '\n'].contains x)

/-- Goes to the quote that closes a string, if the line has one. -/
def stringEnd? (c : Cursor) : Option Cursor :=
  let ahead := c.acceptWhile isPlain
  if ahead.atEnd || ahead.check '\n' then none
  else
    match _h : ahead.accept '\\' with
    | (true, c') => if c'.atEnd || c'.check '\n' then none else stringEnd? c'.advance
    | (false, c') => some c'
termination_by c.rest.length
decreasing_by
  have hfirst : ahead.rest.length ≤ c.rest.length := length_rest_acceptWhile _ c
  have hsecond := length_rest_acceptIf _h
  rw [rest_advance, List.length_tail]
  omega

/-- What a string runs through before it comes to a backslash, a quote or a line feed. -/
theorem stringBody?_append {text : List Char} (h : ∀ x ∈ text, isPlain x) (rest : List Char) :
    Lexeme.stringBody? (text ++ rest) = (Lexeme.stringBody? rest).map (text ++ ·) := by
  induction text with
  | nil => simp
  | cons x text ih =>
    obtain ⟨hx, htext⟩ := List.forall_mem_cons.mp h
    have hx : x ≠ '\\' ∧ x ≠ '"' ∧ x ≠ '\n' := by simpa [isPlain] using hx
    rw [List.cons_append, Lexeme.stringBody?, ih htext]
    · cases Lexeme.stringBody? rest <;> simp
    all_goals simp_all

theorem stringBody?_escape {x : Char} (h : x ≠ '\n') (rest : List Char) :
    Lexeme.stringBody? ('\\' :: x :: rest) = (Lexeme.stringBody? rest).map ('\\' :: x :: ·) := by
  rw [Lexeme.stringBody?]
  exact h

theorem stringEnd?_eq (c : Cursor) :
    c.stringEnd? = (Lexeme.stringBody? c.rest).map fun body => c.advanceN body.length := by
  have hahead (c : Cursor) : Lexeme.stringBody? c.rest =
      (Lexeme.stringBody? (c.acceptWhile isPlain).rest).map (c.rest.takeWhile isPlain ++ ·) := by
    rw [← stringBody?_append fun x hx => mem_takeWhile hx, rest_acceptWhile, List.takeWhile_append_dropWhile]
  fun_induction stringEnd? c with
  | case1 c ahead h =>
    rw [hahead]
    rcases atLineEnd h with hrest | ⟨rest, hrest⟩
    · rw [hrest]
      rfl
    · rw [hrest]
      rfl
  | case2 c ahead h c' hc h' =>
    rw [hahead]
    obtain ⟨rfl, x, rest, hrest, hx⟩ := acceptIf_true hc
    obtain rfl : x = '\\' := by simpa using hx
    rcases atLineEnd h' with hrest' | ⟨rest', hrest'⟩
    · obtain rfl : rest = [] := by simpa [hrest] using hrest'
      rw [hrest]
      rfl
    · obtain rfl : rest = '\n' :: rest' := by simpa [hrest] using hrest'
      rw [hrest]
      rfl
  | case3 c ahead h c' hc h' ih =>
    rw [hahead, ih]
    obtain ⟨rfl, x, rest, hrest, hx⟩ := acceptIf_true hc
    obtain rfl : x = '\\' := by simpa using hx
    obtain ⟨y, rest', hrest', hy⟩ := not_atLineEnd h'
    obtain rfl : rest = y :: rest' := by simpa [hrest] using hrest'
    rw [hrest, rest_advance, hrest', List.tail_cons, stringBody?_escape hy, Option.map_map, Option.map_map]
    congr 1
    funext body
    simp only [ahead, acceptWhile_eq, advance_eq_advanceN, advanceN_advanceN, Function.comp_apply, List.length_append,
      List.length_cons]
    congr 1
    omega
  | case4 c ahead h c' hc =>
    rw [hahead]
    obtain ⟨rfl, hbackslash⟩ := acceptIf_false hc
    obtain ⟨x, rest, hrest, hx⟩ := not_atLineEnd h
    have hplain : isPlain x = false := by
      have hstops : Stops isPlain ahead.rest := by
        rw [rest_acceptWhile]
        exact stops_dropWhile isPlain c.rest
      exact hstops x (by simp [hrest])
    have hbackslash : x ≠ '\\' := by simpa using hbackslash x (by simp [hrest])
    obtain rfl : x = '"' := by simpa [isPlain, hbackslash, hx] using hplain
    rw [hrest, Lexeme.stringBody?]
    simp [ahead, acceptWhile_eq]

/-! ## Character literals -/

/-- At most so many digits. -/
def acceptDigits : Nat → Cursor → List Char × Cursor
  | 0, c => ([], c)
  | n + 1, c =>
    if c.checkDigit then ((c.peek :: (acceptDigits n c.advance).1), (acceptDigits n c.advance).2) else ([], c)

theorem acceptDigits_eq (n : Nat) (c : Cursor) :
    c.acceptDigits n = ((c.rest.takeWhile Char.isDigit).take n,
      c.advanceN ((c.rest.takeWhile Char.isDigit).take n).length) := by
  induction n generalizing c with
  | zero => rfl
  | succ n ih =>
    unfold acceptDigits checkDigit holds peek
    cases hrest : c.rest with
    | nil => simp [advanceN]
    | cons x rest =>
      dsimp only
      split
      · next hx => simp [ih, rest_advance, hrest, hx, advanceN]
      · next hx => simp [hx, advanceN]

theorem length_rest_acceptDigits (n : Nat) (c : Cursor) : (c.acceptDigits n).2.rest.length ≤ c.rest.length := by
  rw [acceptDigits_eq, rest_advanceN, List.length_drop]
  exact Nat.sub_le _ _

/-- The letters of an escape that are not digits. -/
def escapeLetters : List Char := ['t', 'r', 'n', 'b', 'f', '\\', '\'', '"']

theorem letter?_isSome (x : Char) : (Text.Escape.letter? x).isSome = escapeLetters.contains x := by
  unfold Text.Escape.letter?
  split <;> simp_all [escapeLetters]

theorem code?_isSome (digits : List Char) :
    (Text.Escape.code? digits).isSome = decide (Numeral.value 10 digits ≤ 255) := by
  unfold Text.Escape.code?
  dsimp only
  split <;> simp_all

/-- Goes to the quote that closes a character literal, and counts the characters that stand in front of it. -/
def characterEnd (count : Nat) (c : Cursor) : Except Fault (Nat × Cursor) :=
  if _hend : c.atEnd || c.check '\n' then .error (.lineEndIn "char")
  else if c.check '\'' then .ok (count, c)
  else
    match _hescape : c.accept '\\' with
    | (true, c') =>
      match _hletter : c'.acceptAny escapeLetters with
      | (true, c'') => characterEnd (count + 1) c''
      | (false, c'') =>
        if c''.checkDigit then
          if Numeral.value 10 (c''.acceptDigits 3).1 ≤ 255 then characterEnd (count + 1) (c''.acceptDigits 3).2
          else .error .badEscape
        else .error .badEscape
    | (false, c') => characterEnd (count + 1) c'.advance
termination_by c.rest.length
decreasing_by
  · have hfirst := length_rest_acceptIf _hescape
    exact (length_rest_acceptIf _hletter).trans hfirst
  · have hfirst := length_rest_acceptIf _hescape
    obtain ⟨rfl, -⟩ := acceptIf_false _hletter
    exact (length_rest_acceptDigits 3 _).trans_lt hfirst
  · obtain ⟨rfl, -⟩ := acceptIf_false _hescape
    rw [Bool.or_eq_true, not_or] at _hend
    exact length_rest_advanceN 0 (Bool.eq_false_iff.mpr _hend.1)

theorem unit_plain {x : Char} (h : x ≠ '\\') (cs : List Char) : Lexeme.unit (x :: cs) = .ok [x] := by
  unfold Lexeme.unit
  split
  · next heq => exact absurd (List.cons.inj heq).1 h
  · next heq => exact absurd (List.cons.inj heq).1 h
  · rfl

theorem unit_digits {x : Char} (hletter : escapeLetters.contains x = false) (hdigit : x.isDigit) (cs : List Char) :
    Lexeme.unit ('\\' :: x :: cs) =
      if Numeral.value 10 (((x :: cs).takeWhile Char.isDigit).take 3) ≤ 255 then
        .ok ('\\' :: ((x :: cs).takeWhile Char.isDigit).take 3)
      else .error .badEscape := by
  rw [Lexeme.unit, letter?_isSome, if_neg (Bool.eq_false_iff.mp hletter), if_pos hdigit]
  dsimp only
  rw [code?_isSome, Text.Escape.digits]
  simp only [decide_eq_true_eq]

theorem unit_bad {cs : List Char} (hletter : Stops escapeLetters.contains cs) (hdigit : Stops Char.isDigit cs) :
    Lexeme.unit ('\\' :: cs) = .error .badEscape := by
  cases cs with
  | nil => rfl
  | cons x cs =>
    rw [Lexeme.unit, letter?_isSome, if_neg (Bool.eq_false_iff.mp (stops_cons.mp hletter)),
      if_neg (Bool.eq_false_iff.mp (stops_cons.mp hdigit))]

/-- A character literal with one more character in front. -/
theorem map_units {x : Char} {cs text : List Char} (hquote : x ≠ '\'') (hline : x ≠ '\n')
    (hunit : Lexeme.unit (x :: cs) = .ok text) (hrest : c.rest = x :: cs) (count : Nat) :
    (Lexeme.units c.rest).map (fun units => (count + units.length, c.advanceN units.flatten.length)) =
      (Lexeme.units (c.advanceN text.length).rest).map fun units =>
        (count + 1 + units.length, (c.advanceN text.length).advanceN units.flatten.length) := by
  rw [hrest, Lexeme.units_cons hquote hline, hunit, rest_advanceN, hrest]
  dsimp only
  cases Lexeme.units ((x :: cs).drop text.length) with
  | error fault => rfl
  | ok units =>
    simp only [Except.map, List.length_cons, List.flatten_cons, List.length_append, advanceN_advanceN, Except.ok.injEq,
      Prod.mk.injEq, and_true]
    omega

theorem characterEnd_eq (count : Nat) (c : Cursor) :
    c.characterEnd count = (Lexeme.units c.rest).map fun units =>
      (count + units.length, c.advanceN units.flatten.length) := by
  fun_induction characterEnd count c with
  | case1 count c h =>
    rcases atLineEnd h with hrest | ⟨rest, hrest⟩
    · rw [hrest, Lexeme.units]
      rfl
    · rw [hrest, Lexeme.units, if_pos rfl]
      rfl
  | case2 count c h hquote =>
    obtain ⟨x, rest, hrest, hx⟩ := holds_true hquote
    obtain rfl : x = '\'' := by simpa using hx
    rw [hrest, Lexeme.units_quote]
    rfl
  | case3 count c h hquote c' hc c'' hletter ih =>
    obtain ⟨rfl, x, rest, hrest, hx⟩ := acceptIf_true hc
    obtain rfl : x = '\\' := by simpa using hx
    obtain ⟨rfl, y, rest', hrest', hy⟩ := acceptIf_true hletter
    obtain rfl : rest = y :: rest' := by simpa [hrest] using hrest'
    have hunit : Lexeme.unit ('\\' :: y :: rest') = .ok ['\\', y] := by
      rw [Lexeme.unit, if_pos (by rwa [letter?_isSome])]
    rw [ih, map_units (by decide) (by decide) hunit hrest]
    rfl
  | case4 count c h hquote c' hc c'' hletter hdigit hvalue ih =>
    obtain ⟨rfl, x, rest, hrest, hx⟩ := acceptIf_true hc
    obtain rfl : x = '\\' := by simpa using hx
    obtain ⟨rfl, hother⟩ := acceptIf_false hletter
    obtain ⟨y, rest', hrest', hy⟩ := holds_true hdigit
    obtain rfl : rest = y :: rest' := by simpa [hrest] using hrest'
    have hunit := unit_digits (hother y (by simp [hrest])) hy rest'
    rw [acceptDigits_eq, hrest'] at hvalue
    rw [if_pos hvalue] at hunit
    rw [ih, map_units (by decide) (by decide) hunit hrest, acceptDigits_eq, hrest']
    rfl
  | case5 count c h hquote c' hc c'' hletter hdigit hvalue =>
    obtain ⟨rfl, x, rest, hrest, hx⟩ := acceptIf_true hc
    obtain rfl : x = '\\' := by simpa using hx
    obtain ⟨rfl, hother⟩ := acceptIf_false hletter
    obtain ⟨y, rest', hrest', hy⟩ := holds_true hdigit
    obtain rfl : rest = y :: rest' := by simpa [hrest] using hrest'
    have hunit := unit_digits (hother y (by simp [hrest])) hy rest'
    rw [acceptDigits_eq, hrest'] at hvalue
    rw [if_neg hvalue] at hunit
    rw [hrest, Lexeme.units_cons (by decide) (by decide), hunit]
    rfl
  | case6 count c h hquote c' hc c'' hletter hdigit =>
    obtain ⟨rfl, x, rest, hrest, hx⟩ := acceptIf_true hc
    obtain rfl : x = '\\' := by simpa using hx
    obtain ⟨rfl, hother⟩ := acceptIf_false hletter
    have hnumber : Stops Char.isDigit c.advance.rest := holds_false hdigit
    rw [rest_advance, hrest, List.tail_cons] at hother hnumber
    rw [hrest, Lexeme.units_cons (by decide) (by decide), unit_bad hother hnumber]
    rfl
  | case7 count c h hquote c' hc ih =>
    obtain ⟨rfl, hbackslash⟩ := acceptIf_false hc
    obtain ⟨x, rest, hrest, hline⟩ := not_atLineEnd h
    have hbackslash : x ≠ '\\' := by simpa using hbackslash x (by simp [hrest])
    have hquote : x ≠ '\'' := by simpa using holds_false hquote x (by simp [hrest])
    rw [ih, map_units hquote hline (unit_plain hbackslash rest) hrest]
    rfl

end Offside.Source.Cursor
