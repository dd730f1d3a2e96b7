import Offside.Proofs.Scanning
import Offside.Proofs.TokenLines

/-!
# Tokens and their spans

A text that is read falls into the spans of its words, each of which spells its token, and gaps between them
that hold nothing but blanks, line breaks and comments. Every token has the place where its span begins; the
end of a statement has that of a line break or of the end of the text.
-/

namespace Offside

set_option autoImplicit false

open Scanner (isBlank Closes)

/-- The span of a text that a word is the token of: its text, with the quotes around it if it has any. A
number with the letter `x` stands for its value, which the token has in decimal. -/
inductive Token.Spells (t : Token) : List Char → Prop where
  | plain {span : List Char} : span ≠ [] → t.text.toList = span →
      t.kind ∈ [.identifier, .keyword, .operator, .delimiter] ∨
        t.kind = .literal ∧ t.type ∈ [some .boolean, some .int, some .float, some .double] →
      Spells t span
  | string {body : List Char} : t.kind = .literal → t.type = some .string → t.text.toList = body →
      Lexeme.IsStringBody body → Spells t ('"' :: body ++ ['"'])
  | char {body : List Char} : t.kind = .literal → t.type = some .char → t.text.toList = body →
      Lexeme.IsUnit body → Spells t ('\'' :: body ++ ['\''])
  | hexadecimal {x : Char} {digits : List Char} : t.kind = .literal → t.type = some .int →
      x = 'x' ∨ x = 'X' → digits ≠ [] → (∀ c ∈ digits, Numeral.isHexDigit c) →
      t.text = toString (Numeral.value 16 digits) → Spells t ('0' :: x :: digits)

/-- What may stand between words. A comment to the end of its line ends only there. -/
inductive Gap : List Char → List Char → Prop where
  | blanks {text rest : List Char} : (∀ c ∈ text, isBlank c) → Gap text rest
  | newline {rest : List Char} : Gap ['\n'] rest
  | lineComment {text rest : List Char} : '\n' ∉ text → Stops (· ≠ '\n') rest →
      Gap ('/' :: '/' :: text) rest
  | blockComment {text rest : List Char} : Closes 1 text → Gap ('/' :: '*' :: text) rest

/-- The places of the line feeds of `text`, which stands behind `before`. -/
def lineEnds (file : String) : List Char → List Char → List Location
  | _, [] => []
  | before, c :: text =>
    (if c = '\n' then [placeAfter file before] else []) ++ lineEnds file (before ++ [c]) text

/-- The tokens are those of `rest`, in front of which stands `before`. -/
inductive Covers (file : String) : List Char → List Char → List Token → Prop where
  | done {before : List Char} : Covers file before [] [.endAt (placeAfter file before)]
  | finish {before : List Char} {t : Token} : t.kind = .endOfStatement →
      t.location = placeAfter file before →
      Covers file before [] [t, .endAt (placeAfter file before)]
  | gap {before text rest : List Char} {stops ts : List Token} : Gap text rest →
      (∀ t ∈ stops, t.kind = .endOfStatement) →
      (stops.map Token.location).Sublist (lineEnds file before text) →
      Covers file (before ++ text) rest ts → Covers file before (text ++ rest) (stops ++ ts)
  | word {before span rest : List Char} {t : Token} {ts : List Token} : t.Spells span →
      t.location = placeAfter file before → Covers file (before ++ span) rest ts →
      Covers file before (span ++ rest) (t :: ts)

namespace Lexeme

/-- The token of a lexeme, at a place. -/
def token (l : Lexeme) (place : Location) (level : Nat) : Token :=
  ⟨l.kind, String.ofList l.text, place, level, l.type, l.keyword⟩

theorem kind_word (c : Char) (cs : List Char) :
    (word c cs).kind ∈ [.identifier, .keyword, .operator, .delimiter] ∨
      (word c cs).kind = .literal ∧
        (word c cs).type ∈ [some .boolean, some .int, some .float, some .double] := by
  unfold word
  simp only
  split
  · simp
  · split <;> simp

theorem Forms.spells {span rest : List Char} {l : Lexeme} (h : Forms span l rest)
    (place : Location) (level : Nat) : (l.token place level).Spells span := by
  have htext : (l.token place level).text.toList = l.text := String.toList_ofList
  cases h with
  | decimal hpos =>
    refine .plain (List.length_pos_iff.mp hpos) htext (.inr ⟨rfl, ?_⟩)
    simp only [token, numberType]
    split
    · simp
    · split <;> simp
  | hexadecimal hx hne hd => exact .hexadecimal rfl rfl hx hne hd rfl
  | @word c text _ _ ht =>
    refine .plain (List.cons_ne_nil _ _) ?_ (kind_word c text)
    rw [htext, text_word, takeWhile_of_forall ht]
  | operator => exact .plain (List.cons_ne_nil _ _) htext (.inl (by simp [token]))
  | delimiter => exact .plain (List.cons_ne_nil _ _) htext (.inl (by simp [token, Lexeme.delimiter]))
  | string hbody => exact .string rfl rfl htext hbody
  | character hunit => exact .char rfl rfl htext hunit

theorem Forms.sound {span rest : List Char} {l : Lexeme} (h : Forms span l rest) : l.Sound := by
  obtain ⟨c, more, rfl, -⟩ := h.first
  exact sound_next (next_complete rfl h)

end Lexeme

/-- The end of a statement at a line feed. -/
def Token.IsStop (t : Token) : Prop := ∃ place level, t = .plain .endOfStatement "\n" place level

theorem Token.IsStop.kind {t : Token} (h : t.IsStop) : t.kind = .endOfStatement := by
  obtain ⟨place, level, rfl⟩ := h
  rfl

theorem Token.endsStatement_of_kind {t : Token} (h : t.kind = .endOfStatement) : t.endsStatement = true := by
  simp [endsStatement, h]

/-- What is read in front of the end of a text: line feeds that end a statement, and lexemes. -/
inductive Token.IsRead : Token → Prop where
  | stop {t : Token} : t.IsStop → IsRead t
  | word {span rest : List Char} {l : Lexeme} {place : Location} {level : Nat} :
      Lexeme.Forms span l rest → IsRead (l.token place level)

/-- The token of a lexeme that stands in `rest`, behind `before`. -/
def Token.StandsIn (file : String) (before rest : List Char) (t : Token) : Prop :=
  ∃ text span more l level, rest = text ++ span ++ more ∧ Lexeme.Forms span l more ∧
    t = l.token (placeAfter file (before ++ text)) level

theorem Token.StandsIn.behind {file : String} {before text rest : List Char} {t : Token}
    (h : t.StandsIn file (before ++ text) rest) : t.StandsIn file before (text ++ rest) := by
  obtain ⟨text', span, more, l, level, rfl, hforms, rfl⟩ := h
  refine ⟨text ++ text', span, more, l, level, ?_, hforms, ?_⟩
  · simp only [List.append_assoc]
  · rw [List.append_assoc]

namespace Scanner

variable {s s' : Scanner} {file : String} {before text rest : List Char}

theorem isStop_endLine (s : Scanner) : ∀ t ∈ s.endLine.1, t.IsStop := by
  unfold endLine
  cases s.written with
  | false => exact List.forall_mem_nil _
  | true => exact List.forall_mem_singleton.mpr ⟨s.place, s.level, rfl⟩

theorem location_endLine (h : s.At file before rest) :
    (s.endLine.1.map Token.location).Sublist [placeAfter file before] := by
  unfold endLine
  cases s.written with
  | false => exact List.nil_sublist _
  | true => simp [Token.plain, h.place]

theorem isStop_passText (text : List Char) (s : Scanner) :
    ∀ t ∈ (s.passText text).1, t.IsStop := by
  induction text generalizing s with
  | nil => exact List.forall_mem_nil _
  | cons c text ih =>
    by_cases hc : c = '\n'
    · simp only [passText, hc, if_true]
      exact List.forall_mem_append.mpr ⟨isStop_endLine s, ih _⟩
    · simp only [passText, hc, if_false]
      exact ih _

theorem location_passText (h : s.At file before (text ++ rest)) :
    ((s.passText text).1.map Token.location).Sublist (lineEnds file before text) := by
  induction text generalizing s before with
  | nil => exact List.nil_sublist _
  | cons c text ih =>
    rw [lineEnds]
    by_cases hc : c = '\n'
    · subst hc
      simp only [passText, if_true, List.map_append]
      exact (location_endLine h).append (ih h.endLine)
    · have hone : s.At file before ([c] ++ (text ++ rest)) := h
      simp only [passText, hc, if_false, List.nil_append]
      exact ih (hone.pass (by simpa using Ne.symm hc))

/-- Every piece is a gap or a word. -/
theorem covers_piece {c : Char} {cs : List Char} {read ts : List Token}
    (h : s.At file before (c :: cs)) (hp : s.piece c cs = .ok (read, s')) :
    ∃ text rest, c :: cs = text ++ rest ∧ s'.At file (before ++ text) rest ∧
      (Covers file (before ++ text) rest ts → Covers file before (c :: cs) (read ++ ts)) := by
  have hgap : ∀ text rest, c :: cs = text ++ rest → '\n' ∉ text → Gap text rest →
      read = [] → s'.cursor = (s.pass text.length).cursor → s'.file = s.file →
      ∃ text rest, c :: cs = text ++ rest ∧ s'.At file (before ++ text) rest ∧
        (Covers file (before ++ text) rest ts → Covers file before (c :: cs) (read ++ ts)) := by
    intro text rest hcs hn hgap hread hcursor hfile
    subst hread
    rw [hcs] at h ⊢
    obtain ⟨hrest, hplace⟩ := h.pass hn
    refine ⟨text, rest, rfl, ⟨hcursor ▸ hrest, ?_⟩, fun hc => ?_⟩
    · rw [← hplace]
      simp only [Scanner.place, hcursor, hfile, Scanner.pass]
    · exact .gap hgap (List.forall_mem_nil _) (List.nil_sublist _) hc
  cases step_of_piece hp with
  | blanks hblank hb =>
    obtain ⟨level, -, rfl⟩ := blanks_eq_ok.mp hb
    have hall : ∀ d ∈ (c :: cs).takeWhile isBlank, isBlank d := fun d hd => mem_takeWhile hd
    have hpass := congrArg (fun r => (s.pass (r.takeWhile isBlank).length).cursor) h.rest
    exact hgap _ _ List.takeWhile_append_dropWhile.symm (not_mem_of_forall (by decide) hall)
      (.blanks hall) rfl hpass rfl
  | newline =>
    refine ⟨['\n'], cs, rfl, h.endLine, fun hc => ?_⟩
    exact .gap .newline (fun t ht => (isStop_endLine s t ht).kind)
      (by simpa [lineEnds] using location_endLine h) hc
  | @lineComment cs =>
    have hall : ∀ d ∈ ('/' :: '/' :: cs).takeWhile (· ≠ '\n'), decide (d ≠ '\n') = true :=
      fun d hd => mem_takeWhile hd
    have hn : '\n' ∉ ('/' :: '/' :: cs).takeWhile (· ≠ '\n') := not_mem_of_forall (by decide) hall
    have hstop : Stops (· ≠ '\n') (('/' :: '/' :: cs).dropWhile (· ≠ '\n')) := stops_dropWhile _ _
    refine hgap _ _ List.takeWhile_append_dropWhile.symm hn ?_ rfl rfl rfl
    rw [List.takeWhile_cons_of_pos (by decide), List.takeWhile_cons_of_pos (by decide)] at hn ⊢
    exact .lineComment (by simpa using hn) hstop
  | @blockComment text rest hcloses =>
    have hat : s.At file before ('/' :: '*' :: text ++ rest) := h
    refine ⟨'/' :: '*' :: text, rest, rfl, hat.passText, fun hc => ?_⟩
    exact .gap (.blockComment hcloses) (fun t ht => (isStop_passText _ s t ht).kind)
      (location_passText hat) hc
  | @lexeme _ _ span rest l hcs hforms =>
    rw [hcs] at h ⊢
    have hat := h.pass hforms.newline_not_mem
    refine ⟨span, rest, rfl, ?_, fun hc => ?_⟩
    · rw [← hforms.size_eq] at hat
      exact ⟨hat.rest, hat.place⟩
    · exact .word (hforms.spells s.place s.level) h.place hc

theorem isRead_piece {c : Char} {cs : List Char} {read : List Token}
    (hp : s.piece c cs = .ok (read, s')) : ∀ t ∈ read, t.IsRead := by
  cases step_of_piece hp with
  | blanks => exact List.forall_mem_nil _
  | newline => exact fun t ht => .stop (isStop_endLine s t ht)
  | lineComment => exact List.forall_mem_nil _
  | blockComment => exact fun t ht => .stop (isStop_passText _ s t ht)
  | lexeme _ hforms => exact List.forall_mem_singleton.mpr (.word hforms)

theorem isRead_run {read : List Token} (hrun : Run s read s') : ∀ t ∈ read, t.IsRead := by
  induction hrun with
  | refl => exact List.forall_mem_nil _
  | step _ hp _ ih => exact List.forall_mem_append.mpr ⟨isRead_piece hp, ih⟩

/-- Behind a piece the scanner stands further on in the same text. -/
theorem At.piece {c : Char} {cs : List Char} {read : List Token} (h : s.At file before (c :: cs))
    (hp : s.piece c cs = .ok (read, s')) :
    ∃ text rest, c :: cs = text ++ rest ∧ s'.At file (before ++ text) rest := by
  have hnext : ∃ text rest, c :: cs = text ++ rest ∧ s'.At file (before ++ text) rest ∧
      (Covers file (before ++ text) rest [] → Covers file before (c :: cs) (read ++ [])) :=
    covers_piece h hp
  obtain ⟨text, rest, hcs, hat, -⟩ := hnext
  exact ⟨text, rest, hcs, hat⟩

/-- All that is read stands in the text, but for the ends of statements. -/
theorem isStop_or_standsIn_run {read : List Token} (hrun : Run s read s')
    (h : s.At file before rest) : ∀ t ∈ read, t.IsStop ∨ t.StandsIn file before rest := by
  induction hrun generalizing before rest with
  | refl => exact List.forall_mem_nil _
  | @step s s₁ s' c cs read more hrest hp _ ih =>
    obtain rfl : c :: cs = rest := hrest.symm.trans h.rest
    obtain ⟨text, rest₁, hcs, h₁⟩ := h.piece hp
    refine List.forall_mem_append.mpr ⟨?_, fun t ht => ?_⟩
    · cases step_of_piece hp with
      | blanks => exact List.forall_mem_nil _
      | newline => exact fun t ht => .inl (isStop_endLine s t ht)
      | lineComment => exact List.forall_mem_nil _
      | blockComment => exact fun t ht => .inl (isStop_passText _ s t ht)
      | @lexeme _ _ span rest' l hspan hforms =>
        refine List.forall_mem_singleton.mpr (.inr ⟨[], span, rest', l, s.level, hspan, hforms, ?_⟩)
        rw [List.append_nil, ← h.place]
        rfl
    · rw [hcs]
      exact (ih h₁ t ht).imp_right Token.StandsIn.behind

theorem endsStatement_finish (s : Scanner) : ∀ t ∈ s.finish, t.endsStatement = true := by
  unfold finish
  cases s.written <;> simp [Token.plain, Token.endAt, Token.endsStatement]

theorem covers_finish (h : s.At file before []) : Covers file before [] s.finish := by
  unfold finish
  rw [h.place]
  cases s.written with
  | false => exact .done
  | true => exact .finish rfl rfl

theorem covers_run {read : List Token} (ts : List Token) (hrun : Run s read s')
    (h : s.At file before rest) :
    ∃ text rest', rest = text ++ rest' ∧ s'.At file (before ++ text) rest' ∧
      (Covers file (before ++ text) rest' ts → Covers file before rest (read ++ ts)) := by
  induction hrun generalizing before rest with
  | refl s => exact ⟨[], rest, rfl, by rwa [List.append_nil], by rw [List.append_nil]; exact id⟩
  | @step s s₁ s' c cs read more hrest hp _ ih =>
    obtain rfl : c :: cs = rest := hrest.symm.trans h.rest
    obtain ⟨text, rest₁, hcs, h₁, hcovers⟩ := covers_piece h hp
    obtain ⟨text', rest', rfl, h', hcovers'⟩ := ih h₁
    rw [List.append_assoc] at h' hcovers'
    refine ⟨text ++ text', rest', by rw [hcs, List.append_assoc], h', fun hc => ?_⟩
    rw [List.append_assoc]
    exact hcovers (hcovers' hc)

end Scanner

/-- A word of a source text is the token of a lexeme that stands there. -/
theorem Token.standsIn_of_mem {source file : String} {ts : List Token}
    (h : tokenize source file = .ok ts) {t : Token} (ht : t ∈ ts) (hword : t.endsStatement = false) :
    t.StandsIn file [] source.toList := by
  obtain ⟨read, s', hrun, -, rfl⟩ := Scanner.tokens_eq_ok.mp h
  rcases List.mem_append.mp ht with ht | ht
  · refine (Scanner.isStop_or_standsIn_run hrun (Scanner.at_start file _) t ht).resolve_left ?_
    intro hstop
    rw [Token.endsStatement_of_kind hstop.kind] at hword
    cases hword
  · rw [s'.endsStatement_finish t ht] at hword
    cases hword

end Offside
