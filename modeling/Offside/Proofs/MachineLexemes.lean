import Offside.Proofs.MachineSteps

/-!
# Lexemes of the machine

The states for words, operators, delimiters, quoted literals and numbers take the lexemes that a scanner takes. A
number is looked for in the text with its sentinel, which is part of no number.
-/

namespace Offside

set_option autoImplicit false

open Source (Cursor)
open Scanner (isBlank)

namespace Machine

variable {m : Machine}

/-! ## Lexemes -/

theorem follows_lexeme (hm : m.InFront) (l : Lexeme) :
    m.Follows (.ok (m.toScanner.lexeme l)) (.ok (some .start, { m with
      cursor := (m.cursor.advanceN l.size).drop
      written := true
      read := m.read ++ [⟨l.kind, String.ofList l.text, m.origin, m.level, l.type, l.keyword⟩] })) := by
  refine ⟨m.origin, ?_⟩
  rw [hm.origin]
  rfl

theorem follows_word {c : Char} {cs : List Char} (hm : m.InFront) (hrest : m.cursor.rest = c :: cs)
    (hc : Lexeme.startsWord c) : m.Follows (.ok (m.toScanner.lexeme (Lexeme.word c cs))) m.onWord := by
  have hcontinues : Lexeme.continuesWord c := by
    rcases Bool.or_eq_true_iff.mp hc with hletter | hline
    · exact Bool.or_eq_true_iff.mpr (.inl (Bool.or_eq_true_iff.mpr (.inl hletter)))
    · exact Bool.or_eq_true_iff.mpr (.inr hline)
  have hcursor : m.cursor.acceptWhile Lexeme.continuesWord =
      m.cursor.advanceN (c :: cs.takeWhile Lexeme.continuesWord).length := by
    rw [Cursor.acceptWhile_eq, hrest, List.takeWhile_cons_of_pos hcontinues]
  have hlexeme : (m.cursor.acceptWhile Lexeme.continuesWord).lexeme = c :: cs.takeWhile Lexeme.continuesWord := by
    rw [hcursor]
    refine lexeme_advanceN hm (?_ : _ = _ ++ cs.dropWhile Lexeme.continuesWord)
    rw [hrest, List.cons_append, List.takeWhile_append_dropWhile]
  have hfollows := follows_lexeme hm (Lexeme.word c cs)
  unfold onWord addLiteral addPlain
  unfold Lexeme.word at hfollows ⊢
  dsimp only at hfollows ⊢
  rw [hlexeme, hcursor]
  cases hkeyword : Keyword.ofWord? (String.ofList (c :: cs.takeWhile Lexeme.continuesWord)) with
  | some keyword =>
    simp only [hkeyword] at hfollows
    exact hfollows
  | none =>
    simp only [hkeyword] at hfollows ⊢
    split
    · next hboolean =>
      rw [if_pos hboolean] at hfollows
      exact hfollows
    · next hboolean =>
      rw [if_neg hboolean] at hfollows
      exact hfollows

theorem follows_operator {c : Char} {cs : List Char} (hm : m.InFront) (hrest : m.cursor.rest = c :: cs)
    (hc : Lexeme.isOperator c) (hopens : Lexeme.opensComment (c :: cs) = false) :
    m.Follows (.ok (m.toScanner.lexeme (Lexeme.operator c cs))) m.onOperator := by
  have hrun : Lexeme.operatorRun (c :: cs) = c :: Lexeme.operatorRun cs := by
    rw [Lexeme.operatorRun, if_pos (by rw [hc, hopens]; rfl)]
  have hlexeme : m.cursor.acceptOperators.lexeme = c :: Lexeme.operatorRun cs := by
    obtain ⟨rest, hcs, -⟩ := Lexeme.isRun_operatorRun (c :: cs)
    rw [hrun] at hcs
    rw [Cursor.acceptOperators_eq, hrest, hrun]
    exact lexeme_advanceN hm (hrest.trans hcs)
  have hfollows := follows_lexeme hm (Lexeme.operator c cs)
  rw [onOperator, addPlain, hlexeme, Cursor.acceptOperators_eq, hrest, hrun]
  exact hfollows

theorem follows_delimiter {c : Char} {cs : List Char} (hm : m.InFront) (hrest : m.cursor.rest = c :: cs) :
    m.Follows (.ok (m.toScanner.lexeme (Lexeme.delimiter c))) m.onDelimiter := by
  have hone : m.cursor.rest = [c] ++ cs := hrest
  have hlexeme : m.cursor.advance.lexeme = [c] := lexeme_advanceN hm hone
  have hfollows := follows_lexeme hm (Lexeme.delimiter c)
  rw [onDelimiter, addPlain, hlexeme]
  exact hfollows

/-- Behind the first quote a lexeme begins that ends in front of the last one. -/
theorem closeLiteral_eq {quote : Char} {text rest : List Char} (hrest : m.cursor.rest = quote :: (text ++ rest))
    (type : DataType) :
    closeLiteral type { m with cursor := m.cursor.skip.advanceN text.length } = { m with
      cursor := (m.cursor.advanceN (text.length + 2)).drop
      written := true
      read := m.read ++ [⟨.literal, String.ofList text, m.origin, m.level, some type, none⟩] } := by
  have hlexeme : (m.cursor.skip.advanceN text.length).lexeme = text := by
    rw [Cursor.lexeme_advanceN, Cursor.skip, Cursor.rest_drop, Cursor.rest_advance, hrest, List.tail_cons,
      List.take_left]
    rfl
  have hcursor : (m.cursor.skip.advanceN text.length).drop.skip = (m.cursor.advanceN (text.length + 2)).drop := by
    rw [Cursor.skip, Cursor.skip, Cursor.advance_eq_advanceN, Cursor.advance_eq_advanceN, Cursor.drop_advanceN_drop,
      Cursor.advanceN_advanceN, Cursor.drop_advanceN_drop, Cursor.advanceN_advanceN]
    congr 2
    omega
  simp only [closeLiteral, addLiteral, add, hlexeme, hcursor]

theorem follows_string {cs : List Char} (hm : m.InFront) (hrest : m.cursor.rest = '"' :: cs) :
    m.Follows ((Lexeme.string cs).map m.toScanner.lexeme) m.onString := by
  have hbehind : m.cursor.skip.rest = cs := by
    rw [Cursor.skip, Cursor.rest_drop, Cursor.rest_advance, hrest, List.tail_cons]
  unfold onString Lexeme.string
  rw [Cursor.stringEnd?_eq, hbehind]
  cases hbody : Lexeme.stringBody? cs with
  | none => rfl
  | some body =>
    obtain ⟨rest, rfl, -⟩ := Lexeme.stringBody?_sound hbody
    simp only [Option.map_some]
    rw [closeLiteral_eq hrest]
    exact follows_lexeme hm ⟨body.length + 2, .literal, body, some .string, none, Nat.succ_pos _⟩

theorem follows_character {cs : List Char} (hm : m.InFront) (hrest : m.cursor.rest = '\'' :: cs) :
    m.Follows ((Lexeme.character cs).map m.toScanner.lexeme) m.onCharacter := by
  have hbehind : m.cursor.skip.rest = cs := by
    rw [Cursor.skip, Cursor.rest_drop, Cursor.rest_advance, hrest, List.tail_cons]
  unfold onCharacter Lexeme.character
  rw [Cursor.characterEnd_eq, hbehind]
  cases hunits : Lexeme.units cs with
  | error fault => rfl
  | ok units =>
    obtain ⟨-, rest, rfl⟩ := Lexeme.units_sound hunits
    simp only [Except.map, bind, Except.bind, Nat.zero_add]
    rcases units with _ | ⟨text, _ | ⟨text', units⟩⟩
    · rfl
    · rw [if_neg (by simp), closeLiteral_eq hrest, List.flatten_singleton]
      exact follows_lexeme hm ⟨text.length + 2, .literal, text, some .char, none, Nat.succ_pos _⟩
    · rw [if_pos (by simp)]
      rfl

/-! ## Numbers -/

theorem endsNumber_eq (c : Cursor) : Lexeme.endsNumber c.rest = !Text.isAlphabetic c.peek := by
  unfold Cursor.peek
  cases c.rest with
  | nil => rfl
  | cons x rest => rfl

theorem passNumber_eq (m : Machine) (n : Nat) :
    m.passNumber n =
      if Lexeme.endsNumber (m.cursor.rest.drop n) then .ok { m with cursor := m.cursor.advanceN n }
      else .error ⟨.badNumber, m.origin⟩ := by
  rw [← Cursor.rest_advanceN, endsNumber_eq]
  unfold passNumber
  cases hletter : Text.isAlphabetic (m.cursor.advanceN n).peek <;> simp [hletter, fail]

theorem takeWhile_remainder {p : Char → Bool} (h : p Cursor.sentinel = false) (cs : List Char) :
    (cs ++ [Cursor.sentinel]).takeWhile p = cs.takeWhile p :=
  takeWhile_append_of_stops (stops_cons.mpr h) cs

theorem dropWhile_remainder {p : Char → Bool} (h : p Cursor.sentinel = false) (cs : List Char) :
    (cs ++ [Cursor.sentinel]).dropWhile p = cs.dropWhile p ++ [Cursor.sentinel] :=
  dropWhile_append_of_stops (stops_cons.mpr h) cs

theorem hexadecimalParts?_remainder (c : Cursor) : hexadecimalParts? c.remainder = hexadecimalParts? c.rest := by
  unfold Cursor.remainder
  rcases c.rest with _ | ⟨x, _ | ⟨y, rest⟩⟩
  · rfl
  · simp [hexadecimalParts?, Cursor.sentinel]
  · by_cases hzero : x = '0'
    · subst hzero
      by_cases hsmall : y = 'x'
      · subst hsmall
        simp only [List.cons_append, hexadecimalParts?]
        rw [takeWhile_remainder (by decide)]
      by_cases hlarge : y = 'X'
      · subst hlarge
        simp only [List.cons_append, hexadecimalParts?]
        rw [takeWhile_remainder (by decide)]
      simp [hexadecimalParts?, hsmall, hlarge]
    · simp [hexadecimalParts?, hzero]

theorem splitFraction_remainder (cs : List Char) :
    Lexeme.splitFraction (cs ++ [Cursor.sentinel]) =
      ((Lexeme.splitFraction cs).1, (Lexeme.splitFraction cs).2 ++ [Cursor.sentinel]) := by
  rcases cs with _ | ⟨x, cs⟩
  · rfl
  · by_cases hx : x = '.'
    · subst hx
      simp only [List.cons_append, Lexeme.splitFraction]
      rw [takeWhile_remainder (by decide), dropWhile_remainder (by decide)]
    · simp [Lexeme.splitFraction, hx]

theorem splitSign_remainder (cs : List Char) :
    Lexeme.splitSign (cs ++ [Cursor.sentinel]) =
      ((Lexeme.splitSign cs).1, (Lexeme.splitSign cs).2 ++ [Cursor.sentinel]) := by
  rcases cs with _ | ⟨x, cs⟩
  · rfl
  · by_cases hplus : x = '+'
    · subst hplus
      rfl
    by_cases hminus : x = '-'
    · subst hminus
      rfl
    simp [Lexeme.splitSign, hplus, hminus]

theorem splitExponent_remainder (cs : List Char) :
    Lexeme.splitExponent (cs ++ [Cursor.sentinel]) =
      ((Lexeme.splitExponent cs).1, (Lexeme.splitExponent cs).2 ++ [Cursor.sentinel]) := by
  rcases cs with _ | ⟨x, cs⟩
  · rfl
  · simp only [List.cons_append, Lexeme.splitExponent]
    rw [splitSign_remainder]
    dsimp only
    rw [takeWhile_remainder (by decide), dropWhile_remainder (by decide)]
    split <;> rfl

theorem splitSuffix_remainder (cs : List Char) :
    (Lexeme.splitSuffix (cs ++ [Cursor.sentinel])).1 = (Lexeme.splitSuffix cs).1 := by
  rcases cs with _ | ⟨x, cs⟩
  · rfl
  · by_cases hsmall : x = 'f'
    · subst hsmall
      rfl
    by_cases hlarge : x = 'F'
    · subst hlarge
      rfl
    simp [Lexeme.splitSuffix, hsmall, hlarge]

/-- The sentinel is part of no number. -/
theorem decimalParts?_remainder (c : Cursor) : decimalParts? c.remainder = decimalParts? c.rest := by
  unfold Cursor.remainder decimalParts?
  rw [takeWhile_remainder (by decide), dropWhile_remainder (by decide), splitFraction_remainder]
  dsimp only
  rw [splitExponent_remainder]
  dsimp only
  rw [splitSuffix_remainder]

theorem number_eq (cs : List Char) :
    Lexeme.number cs = match hexadecimalParts? cs with
      | some (x, _) => Lexeme.hexadecimal x (cs.drop 2)
      | none => Lexeme.decimal cs := by
  unfold Lexeme.number hexadecimalParts?
  split <;> simp_all

theorem follows_hexadecimal {x : Char} {cs : List Char} (hm : m.InFront) (hrest : m.cursor.rest = '0' :: x :: cs)
    (hparts : hexadecimalParts? m.cursor.rest = some (x, cs.takeWhile Numeral.isHexDigit)) :
    m.Follows ((Lexeme.hexadecimal x cs).map m.toScanner.lexeme) m.onNumber := by
  have hlexeme : (m.cursor.advanceN ((cs.takeWhile Numeral.isHexDigit).length + 2)).lexeme =
      '0' :: x :: cs.takeWhile Numeral.isHexDigit := by
    refine lexeme_advanceN hm
      (?_ : _ = ('0' :: x :: cs.takeWhile Numeral.isHexDigit) ++ cs.dropWhile Numeral.isHexDigit)
    rw [hrest, List.cons_append, List.cons_append, List.takeWhile_append_dropWhile]
  unfold onNumber Lexeme.hexadecimal
  rw [hexadecimalParts?_remainder, hparts]
  dsimp only
  split
  · rfl
  · rw [passNumber_eq, hrest, List.drop_succ_cons, List.drop_succ_cons, Scanner.drop_length_takeWhile]
    cases Lexeme.endsNumber (cs.dropWhile Numeral.isHexDigit) with
    | false => rfl
    | true =>
      simp only [Bool.not_true, Bool.false_eq_true, if_false, if_true, bind, Except.bind, hlexeme]
      split
      · exact follows_lexeme hm ⟨_, .literal, _, some .int, none, Nat.succ_pos _⟩
      · rfl

theorem follows_decimal (hm : m.InFront) (hparts : hexadecimalParts? m.cursor.rest = none) :
    m.Follows ((Lexeme.decimal m.cursor.rest).map m.toScanner.lexeme) m.onNumber := by
  obtain ⟨fraction, afterFraction, hfraction, hcs, -⟩ :=
    Lexeme.splitFraction_sound (m.cursor.rest.dropWhile Char.isDigit)
  obtain ⟨exponent, afterExponent, hexponent, rfl, -⟩ := Lexeme.splitExponent_sound afterFraction
  obtain ⟨suffix, rest, hsuffix, rfl, -⟩ := Lexeme.splitSuffix_sound afterExponent
  have hrest : m.cursor.rest = m.cursor.rest.takeWhile Char.isDigit ++ fraction ++ exponent ++ suffix ++ rest := by
    rw [List.append_assoc, List.append_assoc, List.append_assoc, ← hcs, List.takeWhile_append_dropWhile]
  unfold onNumber Lexeme.decimal
  rw [hexadecimalParts?_remainder, decimalParts?_remainder, hparts, decimalParts?]
  simp only [hfraction, hexponent, hsuffix]
  have hlexeme := lexeme_advanceN hm hrest
  have hbehind := Cursor.rest_behind hrest
  by_cases hwhole : m.cursor.rest.takeWhile Char.isDigit = []
  · rw [if_pos hwhole, dif_pos hwhole]
    rfl
  · rw [if_neg hwhole, dif_neg hwhole]
    dsimp only
    rw [passNumber_eq, ← Cursor.rest_advanceN, hbehind]
    cases Lexeme.endsNumber rest with
    | false => rfl
    | true =>
      simp only [if_true, bind, Except.bind, addLiteral, hlexeme]
      exact follows_lexeme hm ⟨_, .literal, _, some _, none, _⟩

theorem follows_number (hm : m.InFront) :
    m.Follows ((Lexeme.number m.cursor.rest).map m.toScanner.lexeme) m.onNumber := by
  rw [number_eq]
  cases hparts : hexadecimalParts? m.cursor.rest with
  | none => exact follows_decimal hm hparts
  | some parts =>
    obtain ⟨x, digits⟩ := parts
    obtain ⟨cs, hrest, rfl⟩ :
        ∃ cs, m.cursor.rest = '0' :: x :: cs ∧ digits = cs.takeWhile Numeral.isHexDigit := by
      unfold hexadecimalParts? at hparts
      split at hparts
      · next cs hrest =>
        cases hparts
        exact ⟨cs, hrest, rfl⟩
      · next cs hrest =>
        cases hparts
        exact ⟨cs, hrest, rfl⟩
      · cases hparts
    have hfollows := follows_hexadecimal hm hrest hparts
    rw [hrest]
    exact hfollows

/-! ## The first state -/

/-- The first state goes to the state for the piece, unless no piece begins there. -/
theorem follows_choice {c : Char} {cs : List Char} (hm : m.InFront) (hrest : m.cursor.rest = c :: cs) :
    match choice? m.cursor with
    | some q => m.Follows (m.toScanner.piece c cs) (m.step q)
    | none => m.toScanner.piece c cs = .error (.unexpectedCharacter c) := by
  have hend : ¬ m.cursor.atEnd := by simp [Cursor.atEnd, hrest]
  have hpeek : m.cursor.peek = c := by simp [Cursor.peek, hrest]
  unfold choice?
  rw [if_neg hend, hpeek, Cursor.startsWith_eq (by decide), Cursor.startsWith_eq (by decide), hrest]
  by_cases hblank : isBlank c
  · rw [if_pos hblank]
    exact follows_blanks cs hblank
  rw [if_neg hblank]
  by_cases hfeed : c = '\n'
  · subst hfeed
    exact follows_lineFeed hm hrest
  rw [if_neg hfeed]
  by_cases hline : ['/', '/'].isPrefixOf (c :: cs)
  · obtain ⟨rest, hcs⟩ := List.isPrefixOf_iff_prefix.mp hline
    obtain ⟨rfl, rfl⟩ := List.cons.inj hcs
    exact follows_lineComment hrest
  rw [if_neg hline]
  by_cases hblock : ['/', '*'].isPrefixOf (c :: cs)
  · obtain ⟨rest, hcs⟩ := List.isPrefixOf_iff_prefix.mp hblock
    obtain ⟨rfl, rfl⟩ := List.cons.inj hcs
    exact follows_blockComment hm hrest
  rw [if_neg hblock]
  have hbreak : c ∉ breaks := by
    intro hmem
    rcases List.mem_cons.mp hmem with hc | hmem
    · exact hfeed hc
    · exact hblank (List.contains_iff_mem.mpr hmem)
  have hopens : Lexeme.opensComment (c :: cs) = false := by
    rw [← hrest, Cursor.opensComment_eq, Cursor.startsWith_eq (by decide), Cursor.startsWith_eq (by decide), hrest,
      Bool.or_eq_false_iff]
    exact ⟨Bool.eq_false_iff.mpr hline, Bool.eq_false_iff.mpr hblock⟩
  rw [Scanner.piece_lexeme hbreak hopens]
  unfold Lexeme.next
  by_cases hdigit : c.isDigit
  · simp only [if_pos hdigit]
    have hfollows := follows_number hm
    rwa [hrest] at hfollows
  rw [if_neg hdigit, if_neg hdigit]
  by_cases hword : Lexeme.startsWord c
  · rw [if_pos hword, if_pos hword]
    exact follows_word hm hrest hword
  rw [if_neg hword, if_neg hword]
  by_cases hoperator : Lexeme.isOperator c
  · rw [if_pos hoperator, if_pos hoperator]
    exact follows_operator hm hrest hoperator hopens
  rw [if_neg hoperator, if_neg hoperator]
  by_cases hdelimiter : Lexeme.isDelimiter c
  · rw [if_pos hdelimiter, if_pos hdelimiter]
    exact follows_delimiter hm hrest
  rw [if_neg hdelimiter, if_neg hdelimiter]
  by_cases hquote : c = '"'
  · rw [if_pos hquote, if_pos hquote]
    subst hquote
    exact follows_string hm hrest
  rw [if_neg hquote, if_neg hquote]
  by_cases hapostrophe : c = '\''
  · rw [if_pos hapostrophe, if_pos hapostrophe]
    subst hapostrophe
    exact follows_character hm hrest
  rw [if_neg hapostrophe, if_neg hapostrophe]
  rfl

theorem ite_some_ne {p : Prop} [Decidable p] {q q' : State} {o : Option State} (hq : q ≠ q') (ho : o ≠ some q') :
    (if p then some q else o) ≠ some q' := by
  by_cases hp : p
  · rw [if_pos hp]
    exact fun h => hq (Option.some.inj h)
  · rwa [if_neg hp]

/-- The end of the text, and it alone, is taken for the end. -/
theorem choice?_endOfText (c : Cursor) : choice? c = some .endOfText ↔ c.rest = [] := by
  rw [← List.isEmpty_iff, ← Cursor.atEnd]
  unfold choice?
  cases c.atEnd with
  | true => exact ⟨fun _ => rfl, fun _ => rfl⟩
  | false =>
    refine ⟨fun h => absurd h ?_, fun h => absurd h Bool.false_ne_true⟩
    rw [if_neg Bool.false_ne_true]
    repeat refine ite_some_ne (by decide) ?_
    exact (Option.some_ne_none _).symm

theorem choice?_ne_start (c : Cursor) : choice? c ≠ some .start := by
  unfold choice?
  repeat refine ite_some_ne (by decide) ?_
  exact (Option.some_ne_none _).symm

theorem inFront_mark (h : m.cursor.taken = []) : m.mark.InFront := ⟨h, rfl⟩

end Machine

end Offside
