import Offside.Proofs.BlockVariation
import Offside.Proofs.LineEnds
import Offside.Proofs.SourceSpans

/-!
# Carriage returns in front of line feeds

A text whose lines end with a carriage return and a line feed is read like the text with line feeds alone:
the returns are blanks, or the end of a comment, or what ends an unclosed literal anyway.
-/

namespace Offside

set_option autoImplicit false

open Source (Cursor isIndent)

/-- The text with a carriage return in front of every line feed. -/
def withReturns (text : List Char) : List Char :=
  text.flatMap fun c => if c = '\n' then ['\r', '\n'] else [c]

/-- The token as it is if a carriage return stands in front of its line feed. -/
def Token.afterReturn (t : Token) : Token :=
  if t.kind = .endOfStatement ∧ t.text = "\n" then
    { t with location := { t.location with column := t.location.column + 1 } }
  else t

/-! ## Texts with carriage returns -/

section Text

variable {text rest : List Char} {c : Char} {p : Char → Bool}

theorem withReturns_feed (text : List Char) :
    withReturns ('\n' :: text) = '\r' :: '\n' :: withReturns text := rfl

theorem withReturns_cons (hc : c ≠ '\n') (text : List Char) :
    withReturns (c :: text) = c :: withReturns text := by
  simp [withReturns, hc]

theorem withReturns_append (text rest : List Char) :
    withReturns (text ++ rest) = withReturns text ++ withReturns rest := List.flatMap_append

theorem withReturns_line (h : '\n' ∉ text) : withReturns text = text := by
  induction text with
  | nil => rfl
  | cons c text ih =>
    rw [List.mem_cons, not_or] at h
    rw [withReturns_cons (Ne.symm h.1), ih h.2]

/-- A text is a line and what stands behind it. -/
theorem exists_line (text : List Char) :
    ∃ line rest, text = line ++ rest ∧ '\n' ∉ line ∧ LineEnd rest ∧ LineEnd (withReturns rest) := by
  induction text with
  | nil => exact ⟨[], [], rfl, nofun, .none, .none⟩
  | cons c text ih =>
    by_cases hc : c = '\n'
    · subst hc
      exact ⟨[], '\n' :: text, rfl, nofun, .feed, .returned⟩
    · obtain ⟨line, rest, rfl, hline, hrest, hreturns⟩ := ih
      refine ⟨c :: line, rest, rfl, ?_, hrest, hreturns⟩
      rw [List.mem_cons, not_or]
      exact ⟨Ne.symm hc, hline⟩

/-- A class that has neither of the two is passed over as before. -/
theorem span_withReturns (hfeed : p '\n' = false) (hreturn : p '\r' = false) (text : List Char) :
    (withReturns text).takeWhile p = text.takeWhile p ∧
      (withReturns text).dropWhile p = withReturns (text.dropWhile p) := by
  induction text with
  | nil => exact ⟨rfl, rfl⟩
  | cons c text ih =>
    by_cases hc : c = '\n'
    · subst hc
      simp [withReturns_feed, hfeed, hreturn]
    · rw [withReturns_cons hc]
      cases hp : p c with
      | true => simp [hp, ih]
      | false => simp [hp, withReturns_cons hc]

theorem emptyFrom_cons (hfeed : c ≠ '\n') (hreturn : c ≠ '\r') (text : List Char) :
    Scanner.emptyFrom (c :: text) = (c == '/' && text.head? == some '/') := by
  rcases text with _ | ⟨d, text⟩
  · unfold Scanner.emptyFrom
    split <;> simp_all
  · unfold Scanner.emptyFrom
    split <;> simp_all

theorem head?_withReturns (h : c ≠ '\n' ∧ c ≠ '\r') (text : List Char) :
    (withReturns text).head? = some c ↔ text.head? = some c := by
  cases text with
  | nil => rfl
  | cons d text =>
    by_cases hd : d = '\n'
    · subst hd
      simp [withReturns_feed, Ne.symm h.1, Ne.symm h.2]
    · simp [withReturns_cons hd]

theorem exists_of_withReturns (h : c ≠ '\n' ∧ c ≠ '\r') (heq : withReturns text = c :: rest) :
    ∃ more, text = c :: more :=
  List.head?_eq_some_iff.mp ((head?_withReturns h text).mp (by rw [heq]; rfl))

theorem emptyFrom_withReturns (h : '\r' ∉ text) :
    Scanner.emptyFrom (withReturns text) = Scanner.emptyFrom text := by
  cases text with
  | nil => rfl
  | cons c text =>
    by_cases hfeed : c = '\n'
    · subst hfeed
      rfl
    · have hreturn : c ≠ '\r' := fun hc => h (hc ▸ List.mem_cons_self)
      have hhead := head?_withReturns (c := '/') (by decide) text
      rw [withReturns_cons hfeed, emptyFrom_cons hfeed hreturn, emptyFrom_cons hfeed hreturn,
        Bool.eq_iff_iff]
      simp [hhead]

theorem levelBehind_withReturns (h : '\r' ∉ text) (column level : Nat) :
    Scanner.levelBehind column level (withReturns text) = Scanner.levelBehind column level text := by
  obtain ⟨htake, hdrop⟩ := span_withReturns (p := isIndent) (by decide) (by decide) text
  have hrest : '\r' ∉ text.dropWhile isIndent := fun hmem => h ((List.dropWhile_sublist _).subset hmem)
  unfold Scanner.levelBehind
  rw [htake, hdrop, emptyFrom_withReturns hrest]

theorem comment?_withReturns (depth : Nat) (text : List Char) :
    Lexeme.comment? depth (withReturns text) = (Lexeme.comment? depth text).map withReturns := by
  fun_induction Lexeme.comment? depth text with
  | case1 => rfl
  | case2 depth text hdepth =>
    rw [withReturns_cons (by decide), withReturns_cons (by decide), Lexeme.comment?, if_pos hdepth]
    rfl
  | case3 depth text hdepth ih =>
    rw [withReturns_cons (by decide), withReturns_cons (by decide), Lexeme.comment?, if_neg hdepth, ih,
      Option.map_map, Option.map_map]
    rfl
  | case4 depth text ih =>
    rw [withReturns_cons (by decide), withReturns_cons (by decide), Lexeme.comment?, ih,
      Option.map_map, Option.map_map]
    rfl
  | case5 depth c text hclose hopen ih =>
    by_cases hc : c = '\n'
    · subst hc
      rw [withReturns_feed, Lexeme.comment?, Lexeme.comment?, ih, Option.map_map, Option.map_map,
        Option.map_map]
      · rfl
      all_goals simp
    · rw [withReturns_cons hc, Lexeme.comment?, ih, Option.map_map, Option.map_map]
      · congr 1
        funext more
        exact (withReturns_cons hc more).symm
      · rintro more rfl heq
        obtain ⟨tail, rfl⟩ := exists_of_withReturns (by decide) heq
        exact hclose tail rfl rfl
      · rintro more rfl heq
        obtain ⟨tail, rfl⟩ := exists_of_withReturns (by decide) heq
        exact hopen tail rfl rfl

end Text

namespace Source.Cursor

theorem advanceN_succ (n : Nat) (c : Cursor) : c.advanceN (n + 1) = (c.advanceN n).advance := by
  induction n generalizing c with
  | zero => rfl
  | succ n ih => rw [advanceN, ih, advanceN]

theorem advance_drop (c : Cursor) : c.drop.advance.drop = c.advance.drop := by
  obtain ⟨done, taken, rest, line, column⟩ := c
  cases rest <;> rfl

end Source.Cursor

namespace Scanner

variable {s s' t : Scanner} {text rest cs : List Char} {c : Char}

/-! ## Carriage returns between pieces -/

theorem pass_succ (n : Nat) (s : Scanner) : s.pass (n + 1) = (s.pass n).pass 1 := by
  unfold Scanner.pass
  rw [Cursor.advanceN_succ, ← Cursor.advance_drop]
  rfl

/-- A carriage return in front of a line feed is a blank that says nothing. -/
theorem tokens_of_return (h : s.cursor.rest = '\r' :: '\n' :: rest) : s.tokens = (s.pass 1).tokens := by
  have hblanks : s.blanks = .ok (s.pass 1) := by
    rw [blanks_eq_ok, h]
    refine ⟨s.level, ?_, by simp [isBlank]; rfl⟩
    unfold levelBehind
    rw [if_neg]
    simp [isIndent]
  rw [tokens_of_piece h, piece_blank (by decide), hblanks]
  simp only [Except.map, List.nil_append]
  cases (s.pass 1).tokens <;> rfl

/-- The scanner `t` stands where `s` does in the text with carriage returns. -/
structure Beside (s t : Scanner) : Prop where
  file : t.file = s.file
  rest : t.cursor.rest = withReturns s.cursor.rest
  line : t.cursor.line = s.cursor.line
  column : t.cursor.column = s.cursor.column
  level : t.level = s.level
  written : t.written = s.written
  plain : '\r' ∉ s.cursor.rest

namespace Beside

theorem place (h : Beside s t) : t.place = s.place := by
  simp only [Scanner.place, h.file, h.line, h.column]

theorem pass (h : Beside s t) (hrest : s.cursor.rest = text ++ rest) (hline : '\n' ∉ text) :
    Beside (s.pass text.length) (t.pass text.length) where
  file := h.file
  rest := by
    rw [rest_pass, rest_pass, h.rest, hrest, withReturns_append, withReturns_line hline,
      List.drop_left, List.drop_left]
  line := by simpa only [Scanner.pass, Cursor.drop, Cursor.line_advanceN] using h.line
  column := by
    have hs : text.length ≤ s.cursor.rest.length := by simp [hrest]
    have ht : text.length ≤ t.cursor.rest.length := by
      simp [h.rest, hrest, withReturns_append, withReturns_line hline]
    simp only [Scanner.pass, Cursor.drop, column_advanceN hs, column_advanceN ht, h.column]
  level := h.level
  written := h.written
  plain := by
    rw [rest_pass]
    exact fun hmem => h.plain (List.mem_of_mem_drop hmem)

/-- Both stand in front of a line break, which is one character longer for `t`. -/
theorem endLine (h : Beside s t) (hrest : s.cursor.rest = '\n' :: rest) :
    (t.pass 1).endLine.1 = s.endLine.1.map Token.afterReturn ∧
      Beside s.endLine.2 (t.pass 1).endLine.2 := by
  have hbreak : t.cursor.rest = '\r' :: '\n' :: withReturns rest := by rw [h.rest, hrest]; rfl
  have hone : 1 ≤ t.cursor.rest.length := by simp [hbreak]
  have hplace : (t.pass 1).place = { s.place with column := s.place.column + 1 } := by
    rw [← h.place]
    simp only [Scanner.place, Scanner.pass, Cursor.drop, Cursor.line_advanceN, column_advanceN hone]
  have hlevel : (t.pass 1).level = s.level := h.level
  have hwritten : (t.pass 1).written = s.written := h.written
  constructor
  · unfold Scanner.endLine
    rw [hwritten, hplace, hlevel]
    cases s.written with
    | true => rfl
    | false => rfl
  · refine ⟨h.file, ?_, ?_, rfl, rfl, rfl, ?_⟩
    · rw [rest_endLine, rest_endLine, rest_pass, hbreak, hrest]
      rfl
    · simp [Scanner.endLine, Scanner.pass, Cursor.newLine, Cursor.skip, Cursor.drop, h.line]
    · rw [rest_endLine]
      exact fun hmem => h.plain (List.mem_of_mem_tail hmem)

/-! ## Pieces -/

/-- A run of characters that a carriage return may be among, but no line feed. -/
theorem passWhile (h : Beside s t) (p : Char → Bool) (hfeed : p '\n' = false) (hreturn : p '\r' = true)
    (level : Nat) :
    ∃ t', Beside { s.pass (s.cursor.rest.takeWhile p).length with level } t' ∧
      { t.pass (t.cursor.rest.takeWhile p).length with level }.tokens = t'.tokens := by
  have hcut : s.cursor.rest = s.cursor.rest.takeWhile p ++ s.cursor.rest.dropWhile p :=
    List.takeWhile_append_dropWhile.symm
  have hall : ∀ c ∈ s.cursor.rest.takeWhile p, p c = true := fun c hc => mem_takeWhile hc
  have hline := not_mem_of_forall hfeed hall
  have hpass := h.pass hcut hline
  have hrest : t.cursor.rest = s.cursor.rest.takeWhile p ++ withReturns (s.cursor.rest.dropWhile p) := by
    rw [h.rest]
    conv_lhs => rw [hcut]
    rw [withReturns_append, withReturns_line hline]
  refine ⟨{ t.pass (s.cursor.rest.takeWhile p).length with level },
    ⟨hpass.file, hpass.rest, hpass.line, hpass.column, rfl, hpass.written, hpass.plain⟩, ?_⟩
  have hstops := stops_dropWhile p s.cursor.rest
  generalize s.cursor.rest.takeWhile p = passed at *
  generalize s.cursor.rest.dropWhile p = ahead at *
  cases ahead with
  | nil =>
    have htake : t.cursor.rest.takeWhile p = passed := by
      rw [hrest]
      exact takeWhile_append_stops hall (stops_nil p)
    rw [htake]
  | cons d more =>
    by_cases hd : d = '\n'
    · subst hd
      have hreturns : ∀ c ∈ passed ++ ['\r'], p c = true :=
        List.forall_mem_append.mpr ⟨hall, List.forall_mem_singleton.mpr hreturn⟩
      have htake : t.cursor.rest.takeWhile p = passed ++ ['\r'] := by
        rw [hrest, withReturns_feed, List.append_cons]
        exact takeWhile_append_stops hreturns (stops_cons.mpr hfeed)
      have hbreak : (t.pass passed.length).cursor.rest = '\r' :: '\n' :: withReturns more := by
        rw [rest_pass, hrest, List.drop_left]
        rfl
      rw [htake, List.length_append, List.length_singleton, pass_succ]
      exact (tokens_of_return (s := { t.pass passed.length with level }) hbreak).symm
    · rw [hrest, withReturns_cons hd, takeWhile_append_stops hall (stops_cons.mpr (stops_cons.mp hstops))]

theorem passText (h : Beside s t) (hrest : s.cursor.rest = text ++ rest) :
    (t.passText (withReturns text)).1 = (s.passText text).1.map Token.afterReturn ∧
      Beside (s.passText text).2 (t.passText (withReturns text)).2 := by
  induction text generalizing s t with
  | nil => exact ⟨rfl, h⟩
  | cons c text ih =>
    by_cases hc : c = '\n'
    · subst hc
      obtain ⟨hstop, hbehind⟩ := h.endLine hrest
      obtain ⟨hmore, hpass⟩ := ih hbehind (by simp [hrest])
      rw [withReturns_feed]
      simp only [Scanner.passText, if_true]
      rw [if_neg (by decide), List.nil_append, hstop, hmore, List.map_append]
      exact ⟨rfl, hpass⟩
    · have hone : s.cursor.rest = [c] ++ (text ++ rest) := hrest
      obtain ⟨hmore, hpass⟩ := ih (h.pass hone (by simpa using Ne.symm hc)) (by simp [hrest])
      rw [withReturns_cons hc]
      simp only [Scanner.passText, hc, if_false, List.nil_append]
      exact ⟨hmore, hpass⟩

end Beside

/-- Two pieces have read the same, and so will what is read behind them; or both have the same fault. -/
inductive ReadAlike :
    Except Fault (List Token × Scanner) → Except Fault (List Token × Scanner) → Prop where
  | ok {read read' : List Token} {s t t' : Scanner} : read' = read.map Token.afterReturn →
      Beside s t' → t.tokens = t'.tokens → ReadAlike (.ok (read, s)) (.ok (read', t))
  | error {fault : Fault} : ReadAlike (.error fault) (.error fault)

namespace Beside

theorem lexeme (h : Beside s t) {l : Lexeme} {span : List Char} (hforms : Lexeme.Forms span l rest)
    (hrest : s.cursor.rest = span ++ rest) :
    ReadAlike (.ok (s.lexeme l)) (.ok (t.lexeme l)) := by
  have hpass := h.pass hrest hforms.newline_not_mem
  rw [← hforms.size_eq] at hpass
  have hread : (t.lexeme l).1 = (s.lexeme l).1.map Token.afterReturn := by
    simp only [Scanner.lexeme, h.place, h.level, List.map_singleton, Token.afterReturn]
    rw [if_neg fun heq => hforms.sound.kind.1 heq.1]
  have hbeside : Beside (s.lexeme l).2 (t.lexeme l).2 :=
    ⟨hpass.file, hpass.rest, hpass.line, hpass.column, hpass.level, rfl, hpass.plain⟩
  exact .ok hread hbeside rfl

theorem piece (h : Beside s t) (hrest : s.cursor.rest = c :: cs) (hc : c ≠ '\n') :
    ReadAlike (s.piece c cs) (t.piece c (withReturns cs)) := by
  have hrest' : t.cursor.rest = c :: withReturns cs := by rw [h.rest, hrest, withReturns_cons hc]
  cases begins c cs with
  | blank hblank =>
    rw [piece_blank hblank, piece_blank hblank, blanks_eq, blanks_eq, h.rest,
      levelBehind_withReturns h.plain, h.column, h.level, ← h.rest]
    cases levelBehind s.cursor.column s.level s.cursor.rest with
    | error fault => exact .error
    | ok level =>
      obtain ⟨t', hbeside, htokens⟩ := h.passWhile isBlank (by decide) (by decide) level
      exact .ok rfl hbeside htokens
  | newline => exact absurd rfl hc
  | @lineComment cs =>
    obtain ⟨t', hbeside, htokens⟩ :=
      h.passWhile (fun c => decide (c ≠ '\n')) (by decide) (by decide) s.level
    rw [hrest] at hbeside
    rw [hrest', withReturns_cons (by decide)] at htokens
    rw [withReturns_cons (by decide), piece_lineComment, piece_lineComment]
    have hlevel : (t.pass (('/' :: '/' :: withReturns cs).takeWhile (· ≠ '\n')).length).level = s.level :=
      h.level
    exact .ok rfl hbeside (by rw [← htokens, ← hlevel])
  | @blockComment cs =>
    rw [withReturns_cons (by decide), piece_blockComment, piece_blockComment, comment?_withReturns]
    cases hcomment : Lexeme.comment? 1 cs with
    | none => exact .error
    | some text =>
      obtain ⟨rest, rfl, -⟩ := comment?_sound hcomment
      have hcut : s.cursor.rest = '/' :: '*' :: text ++ rest := hrest
      obtain ⟨hread, hbeside⟩ := h.passText hcut
      exact .ok hread hbeside rfl
  | lexeme hbreak ho =>
    obtain ⟨line, rest, rfl, hline, hend, hend'⟩ := exists_line cs
    have hline' : withReturns (line ++ rest) = line ++ withReturns rest := by
      rw [withReturns_append, withReturns_line hline]
    have ho' : Lexeme.opensComment (c :: (line ++ withReturns rest)) = false := by
      rw [Lexeme.opensComment_line hend', ← Lexeme.opensComment_line hend, ho]
    rw [hline', piece_lexeme hbreak ho, piece_lexeme hbreak ho', Lexeme.next_line hend',
      Lexeme.next_line hend]
    cases hnext : Lexeme.next c line with
    | error fault => exact .error
    | ok l =>
      rw [← Lexeme.next_line hend] at hnext
      obtain ⟨span, behind, hcs, hforms⟩ := Lexeme.next_sound ho hnext
      exact h.lexeme hforms (hrest.trans hcs)

theorem finish (h : Beside s t) : t.finish = s.finish.map Token.afterReturn := by
  unfold Scanner.finish
  rw [h.written, h.place, h.level]
  cases s.written with
  | true => rfl
  | false => rfl

theorem map_append_afterReturn (read : List Token) (x : Except Diagnostic (List Token)) :
    (x.map (List.map Token.afterReturn)).map (read.map Token.afterReturn ++ ·) =
      (x.map (read ++ ·)).map (List.map Token.afterReturn) := by
  cases x with
  | error d => rfl
  | ok ts => simp [Except.map]

/-- The tokens differ in the places of line feeds alone. -/
theorem tokens (h : Beside s t) : t.tokens = s.tokens.map (List.map Token.afterReturn) := by
  induction hn : s.cursor.rest.length using Nat.strongRecOn generalizing s t with
  | ind n ih =>
    cases hrest : s.cursor.rest with
    | nil =>
      have hend : t.cursor.rest = [] := by rw [h.rest, hrest]; rfl
      rw [tokens_of_end hrest, tokens_of_end hend, h.finish]
      rfl
    | cons c cs =>
      by_cases hc : c = '\n'
      · subst hc
        have hbreak : t.cursor.rest = '\r' :: '\n' :: withReturns cs := by rw [h.rest, hrest]; rfl
        have hpassed : (t.pass 1).cursor.rest = '\n' :: withReturns cs := by rw [rest_pass, hbreak]; rfl
        obtain ⟨hstop, hbehind⟩ := h.endLine hrest
        have hlt : s.endLine.2.cursor.rest.length < n := by
          rw [← hn, rest_endLine, hrest]
          exact Nat.lt_succ_self _
        have hmore := ih _ hlt hbehind rfl
        rw [tokens_of_return hbreak, tokens_of_piece hpassed, tokens_of_piece hrest, piece_newline,
          piece_newline]
        dsimp only
        rw [hmore, hstop, map_append_afterReturn]
      · have hpiece := h.piece hrest hc
        have hrest' : t.cursor.rest = c :: withReturns cs := by rw [h.rest, hrest, withReturns_cons hc]
        have hlt := fun read s' => @piece_lt s s' c cs read hrest
        rw [tokens_of_piece hrest, tokens_of_piece hrest']
        generalize s.piece c cs = r at hpiece hlt
        generalize t.piece c (withReturns cs) = r' at hpiece
        cases hpiece with
        | error =>
          rw [h.place]
          rfl
        | ok hread hbeside htokens =>
          have hmore := ih _ (hn ▸ hlt _ _ rfl) hbeside rfl
          dsimp only
          rw [htokens, hmore, hread, map_append_afterReturn]

end Beside

end Scanner

/-! ## Programs with carriage returns -/

/-- The words of the two texts have the same places, the ends of their lines are on the same lines. -/
def returned : Variation where
  words := Eq
  stops l m := m.file = l.file ∧ m.line = l.line ∧ (m.column = l.column ∨ m.column = l.column + 1)
  stops_of_words := by
    rintro l m rfl
    exact ⟨rfl, rfl, .inl rfl⟩
  deeper := 0
  goesOn := False

variable {ts : List Token}

theorem returned_pair {t : Token} (h : t.keyword ≠ none → t.endsStatement = false) :
    returned.Pair t t.afterReturn := by
  unfold Token.afterReturn
  split
  · next hbreak =>
    have hstop : t.endsStatement = true := by simp [Token.endsStatement, hbreak.1]
    refine ⟨rfl, rfl, rfl, fun _ => rfl, fun hword => ?_, ⟨rfl, rfl, .inr rfl⟩, fun hword => ?_⟩
    · exact Bool.noConfusion (hstop.symm.trans hword)
    · exact Bool.noConfusion (hstop.symm.trans (hword.elim id h))
  · exact ⟨rfl, rfl, rfl, fun _ => rfl, fun _ => rfl, ⟨rfl, rfl, .inl rfl⟩, fun _ => rfl⟩

theorem returned_shares (h : ∀ t ∈ ts, t.keyword ≠ none → t.endsStatement = false) :
    returned.Shares ts (ts.map Token.afterReturn) := by
  induction ts with
  | nil => exact .nil
  | cons t ts ih =>
    obtain ⟨ht, hts⟩ := List.forall_mem_cons.mp h
    exact .cons (returned_pair ht) (ih hts)

theorem tokenize_withReturns {source : String} (h : '\r' ∉ source.toList) (file : String) :
    tokenize (String.ofList (withReturns source.toList)) file =
      (tokenize source file).map (List.map Token.afterReturn) := by
  have hbeside : (Scanner.start file source.toList).Beside (.start file (withReturns source.toList)) :=
    ⟨rfl, rfl, rfl, rfl, rfl, rfl, h⟩
  unfold tokenize
  rw [String.toList_ofList]
  exact hbeside.tokens

/--
A text and the same text with carriage returns have the same tokens, but for the columns of line feeds, or
the same error; and they have the same tree, or the same fault on the same line.
-/
theorem compile_withReturns {source : String} (h : '\r' ∉ source.toList) (file : String) :
    tokenize (String.ofList (withReturns source.toList)) file =
        (tokenize source file).map (List.map Token.afterReturn) ∧
      (∀ s, compile file source = .ok s →
        compile file (String.ofList (withReturns source.toList)) = .ok s) ∧
      ∀ d, compile file source = .error d →
        ∃ e, compile file (String.ofList (withReturns source.toList)) = .error e ∧
          e.fault = d.fault ∧ e.location.file = d.location.file ∧ e.location.line = d.location.line := by
  have htokens := tokenize_withReturns h file
  refine ⟨htokens, ?_⟩
  unfold compile
  cases ht : tokenize source file with
  | error d =>
    rw [htokens, ht]
    exact ⟨nofun, fun e he => ⟨e, he, rfl, rfl, rfl⟩⟩
  | ok ts =>
    have hlined := lined_tokenize ht
    have hlined' := lined_tokenize (htokens.trans (congrArg _ ht))
    have hshares := (returned_shares hlined.endsStatement_of_keyword).ofTokens hlined hlined'
    rw [htokens, ht]
    constructor
    · intro s hs
      obtain ⟨s', hs', hlike⟩ := Variation.parse_ok rfl hshares id hs
      rw [Scope.eq_of_like hlike]
      exact hs'
    · intro d hd
      rcases Variation.parse_error rfl hshares nofun hd with ⟨hgoes, -⟩ | ⟨e, he, hlike⟩
      · exact hgoes.elim
      · obtain ⟨hfile, hline, -⟩ := hlike
        exact ⟨_, he, rfl, hfile, hline⟩

/-- A line break inside of a comment ends a statement too early, one column further behind a return. -/
theorem compile_withReturns_comment :
    '\r' ∉ "a := 1 // a\n\nb :: /* c\n*/ 2\n".toList ∧
      String.ofList (withReturns "a := 1 // a\n\nb :: /* c\n*/ 2\n".toList) =
        "a := 1 // a\r\n\r\nb :: /* c\r\n*/ 2\r\n" ∧
      (tokenize (String.ofList (withReturns "a := 1 // a\n\nb :: /* c\n*/ 2\n".toList)) "" =
        (tokenize "a := 1 // a\n\nb :: /* c\n*/ 2\n" "").map (List.map Token.afterReturn)) ∧
      ∃ d e, compile "" "a := 1 // a\n\nb :: /* c\n*/ 2\n" = .error d ∧
        d = ⟨.expectedExpression, ⟨"", 3, 10⟩⟩ ∧
        compile "" (String.ofList (withReturns "a := 1 // a\n\nb :: /* c\n*/ 2\n".toList)) = .error e ∧
        e.fault = d.fault ∧ e.location.file = d.location.file ∧ e.location.line = d.location.line := by
  have hplain : '\r' ∉ "a := 1 // a\n\nb :: /* c\n*/ 2\n".toList := by decide +kernel
  have hfault : (match compile "" "a := 1 // a\n\nb :: /* c\n*/ 2\n" with
      | .ok _ => none
      | .error d => some d) = some ⟨.expectedExpression, ⟨"", 3, 10⟩⟩ := by
    decide +kernel
  cases hd : compile "" "a := 1 // a\n\nb :: /* c\n*/ 2\n" with
  | ok s => simp [hd] at hfault
  | error d =>
    rw [hd] at hfault
    obtain ⟨htokens, -, herror⟩ := compile_withReturns hplain ""
    obtain ⟨e, he, hlike⟩ := herror d hd
    exact ⟨hplain, by decide +kernel, htokens, d, e, rfl, Option.some.inj hfault, he, hlike⟩

end Offside
