import Offside.Proofs.MachineLexemes

/-!
# Runs of the machine

The machine stops, and soon: every piece takes two steps and at least one character. What it comes to is what the
scanner comes to, which knows no sentinel.
-/

namespace Offside

set_option autoImplicit false

open Source (Cursor)

namespace Scanner

/-! ## What a piece leaves -/

theorem text_advanceN (n : Nat) (c : Cursor) : (c.advanceN n).text = c.text := by
  induction n generalizing c with
  | zero => rfl
  | succ n ih => rw [Cursor.advanceN, ih, Cursor.text_advance]

theorem text_pass (n : Nat) (s : Scanner) : (s.pass n).cursor.text = s.cursor.text := by
  rw [pass, Cursor.text_drop, text_advanceN]

theorem text_endLine (s : Scanner) : s.endLine.2.cursor.text = s.cursor.text := by
  change s.cursor.advance.drop.text = _
  rw [Cursor.text_drop, Cursor.text_advance]

/-- Behind a piece a lexeme begins, in the same text. -/
structure Leaves (s s' : Scanner) : Prop where
  taken : s'.cursor.taken = []
  text : s'.cursor.text = s.cursor.text

theorem leaves_passText (text : List Char) {s : Scanner} (hs : s.cursor.taken = []) :
    Leaves s (s.passText text).2 := by
  induction text generalizing s with
  | nil => exact ⟨hs, rfl⟩
  | cons x text ih =>
    by_cases hx : x = '\n'
    · simp only [passText, hx, if_true]
      have hmore := ih (s := s.endLine.2) rfl
      exact ⟨hmore.taken, hmore.text.trans (text_endLine s)⟩
    · simp only [passText, hx, if_false]
      have hmore := ih (s := s.pass 1) rfl
      exact ⟨hmore.taken, hmore.text.trans (text_pass 1 s)⟩

theorem leaves_piece {s s' : Scanner} {c : Char} {cs : List Char} {read : List Token} (hs : s.cursor.taken = [])
    (h : s.piece c cs = .ok (read, s')) : Leaves s s' := by
  cases step_of_piece h with
  | blanks _ hb =>
    obtain ⟨level, -, rfl⟩ := blanks_eq_ok.mp hb
    exact ⟨rfl, text_pass _ s⟩
  | newline => exact ⟨rfl, text_endLine s⟩
  | lineComment => exact ⟨rfl, text_pass _ s⟩
  | blockComment => exact leaves_passText _ hs
  | lexeme => exact ⟨rfl, text_pass _ s⟩

end Scanner

namespace Machine

open Scanner

variable {m : Machine}

/-! ## Whole runs -/

/-- What the machine comes to from a state on, if it stops after at most so many steps. -/
def run : Nat → State → Machine → Option (Except Diagnostic (List Token))
  | 0, _, _ => none
  | n + 1, q, m =>
    match m.step q with
    | .error d => some (.error d)
    | .ok (none, m') => some (.ok m'.read)
    | .ok (some q', m') => run n q' m'

theorem run_mono {n n' : Nat} {q : State} {result : Except Diagnostic (List Token)} (hle : n ≤ n')
    (h : run n q m = some result) : run n' q m = some result := by
  induction n generalizing n' q m with
  | zero => cases h
  | succ n ih =>
    obtain ⟨n', rfl⟩ : ∃ k, n' = k + 1 := ⟨n' - 1, by omega⟩
    rw [run] at h ⊢
    split at h
    · exact h
    · exact h
    · exact ih (Nat.le_of_succ_le_succ hle) h

theorem onEndOfText_eq (hm : m.InFront) :
    ∃ m', m.onEndOfText = .ok (none, m') ∧ m'.read = m.read ++ m.toScanner.finish := by
  have hlexeme : String.ofList m.cursor.lexeme = "" := by rw [Cursor.lexeme, hm.taken]; rfl
  have hdropped : String.ofList m.cursor.drop.lexeme = "" := rfl
  refine ⟨_, rfl, ?_⟩
  unfold Scanner.finish
  rw [← hm.origin]
  split
  · simp only [addPlain, add, hlexeme, hdropped, List.append_assoc]
    rfl
  · simp only [addPlain, add, hlexeme, List.nil_append]
    rfl

/-- Each piece takes two steps at most, and so does the end of the text. -/
theorem run_tokens (hm : m.cursor.taken = []) :
    run (2 * m.cursor.rest.length + 2) .start m = some (m.toScanner.tokens.map (m.read ++ ·)) := by
  induction hn : m.cursor.rest.length using Nat.strongRecOn generalizing m with
  | ind n ih =>
    have hfront : m.mark.InFront := inFront_mark hm
    cases hrest : m.cursor.rest with
    | nil =>
      obtain ⟨m', hend, hread⟩ := onEndOfText_eq hfront
      have hstart : m.step .start = .ok (some .endOfText, m.mark) := by
        rw [step, onStart, (choice?_endOfText m.cursor).mpr hrest]
      rw [Scanner.tokens_of_end hrest, run, hstart]
      dsimp only
      rw [run, step, hend]
      dsimp only
      rw [hread]
      rfl
    | cons c cs =>
      have hfollows := follows_choice hfront hrest
      have hn' : 2 * n + 2 = 2 * (n - 1) + 2 + 2 := by
        rw [hrest, List.length_cons] at hn
        omega
      rw [Scanner.tokens_of_piece hrest, hn', run, step, onStart]
      have hsame : m.mark.toScanner = m.toScanner := rfl
      rw [hsame] at hfollows
      cases hchoice : choice? m.cursor with
      | none =>
        simp only [hchoice] at hfollows
        have hpeek : m.cursor.peek = c := by simp [Cursor.peek, hrest]
        rw [hfollows]
        dsimp only [fail]
        rw [hpeek]
        rfl
      | some q =>
        simp only [hchoice] at hfollows
        dsimp only
        rw [run]
        cases hpiece : m.toScanner.piece c cs with
        | error fault =>
          rw [hpiece] at hfollows
          rw [hfollows]
          rfl
        | ok result =>
          obtain ⟨read, s'⟩ := result
          rw [hpiece] at hfollows
          obtain ⟨origin, hstep⟩ := hfollows
          have hlt := Scanner.piece_lt hrest hpiece
          have hmore := @ih _ (hn ▸ hlt) ⟨s', origin, m.read ++ read⟩ (leaves_piece hm hpiece).taken rfl
          rw [hstep]
          dsimp only
          change run (2 * (n - 1) + 2) .start ⟨s', origin, m.read ++ read⟩ = _
          have hle : 2 * s'.cursor.rest.length + 2 ≤ 2 * (n - 1) + 2 := by omega
          rw [run_mono hle hmore]
          cases s'.tokens with
          | error d => rfl
          | ok ts => simp [Except.map]

/-! ## Reached configurations -/

/-- The configurations that the machine comes through on a text. -/
inductive Reached (file source : String) : State → Machine → Prop where
  | first : Reached file source .start (ofText file source.toList)
  | step {q q' : State} {m m' : Machine} : Reached file source q m → m.step q = .ok (some q', m') →
      Reached file source q' m'

/-- How many characters of the text are behind the cursor. -/
def position (m : Machine) : Nat := m.cursor.done.length + m.cursor.taken.length

theorem position_add (m : Machine) : m.position + m.cursor.rest.length = m.cursor.text.length := by
  simp only [position, Cursor.text, Cursor.lexeme, List.length_append, List.length_reverse]

/-- Between two steps a lexeme begins, and every state but the first has been chosen by what comes next. -/
def Ready (m : Machine) : State → Prop
  | .start => m.cursor.taken = []
  | q => m.InFront ∧ choice? m.cursor = some q

theorem Ready.taken {q : State} (h : m.Ready q) : m.cursor.taken = [] := by
  cases q with
  | start => exact h
  | _ => exact h.1.taken

theorem ready_mark {q : State} (hm : m.cursor.taken = []) (hq : choice? m.cursor = some q) : m.mark.Ready q := by
  cases q with
  | start => exact absurd hq (choice?_ne_start m.cursor)
  | _ => exact ⟨inFront_mark hm, hq⟩

/-- What the first state does. -/
theorem step_start {m' : Machine} {q? : Option State} (h : m.step .start = .ok (q?, m')) :
    ∃ q, q? = some q ∧ choice? m.cursor = some q ∧ m' = m.mark := by
  rw [step, onStart] at h
  split at h
  · next q hq =>
    cases h
    exact ⟨q, rfl, hq, rfl⟩
  · cases h

/-- What every other state does. -/
theorem step_chosen {q : State} (hm : m.InFront) (hq : choice? m.cursor = some q) :
    match m.step q with
    | .error _ => m.cursor.rest ≠ []
    | .ok (none, _) => m.cursor.rest = []
    | .ok (some q', m') => q' = .start ∧ Leaves m.toScanner m'.toScanner ∧
        m'.cursor.rest.length < m.cursor.rest.length := by
  cases hrest : m.cursor.rest with
  | nil =>
    rw [(choice?_endOfText m.cursor).mpr hrest] at hq
    cases hq
    obtain ⟨m', hend, -⟩ := onEndOfText_eq hm
    rw [step, hend]
  | cons c cs =>
    have hfollows := follows_choice hm hrest
    simp only [hq] at hfollows
    cases hpiece : m.toScanner.piece c cs with
    | error fault =>
      rw [hpiece] at hfollows
      rw [hfollows]
      exact List.cons_ne_nil c cs
    | ok result =>
      obtain ⟨read, s'⟩ := result
      rw [hpiece] at hfollows
      obtain ⟨origin, hstep⟩ := hfollows
      rw [hstep, ← hrest]
      exact ⟨rfl, leaves_piece hm.taken hpiece, Scanner.piece_lt hrest hpiece⟩

theorem Reached.ready {file source : String} {q : State} (h : Reached file source q m) :
    m.Ready q ∧ m.cursor.text = source.toList := by
  induction h with
  | first => exact ⟨rfl, rfl⟩
  | @step q q' m m' _ hstep ih =>
    obtain ⟨hready, htext⟩ := ih
    by_cases hq : q = .start
    · subst hq
      obtain ⟨q₁, hsome, hchoice, rfl⟩ := step_start hstep
      cases hsome
      exact ⟨ready_mark hready hchoice, htext⟩
    · have hchosen : m.InFront ∧ choice? m.cursor = some q := by
        cases q with
        | start => exact absurd rfl hq
        | _ => exact hready
      have hdone := step_chosen hchosen.1 hchosen.2
      rw [hstep] at hdone
      obtain ⟨rfl, hleaves, -⟩ := hdone
      exact ⟨hleaves.taken, hleaves.text.trans htext⟩

theorem Reached.position_add {file source : String} {q : State} (h : Reached file source q m) :
    m.position + m.cursor.rest.length = source.length := by
  rw [Machine.position_add, h.ready.2, String.length_toList]

theorem Reached.atEnd_iff {file source : String} {q : State} (h : Reached file source q m) :
    m.cursor.atEnd ↔ m.position = source.length := by
  have hposition := h.position_add
  rw [Cursor.atEnd, List.isEmpty_iff_length_eq_zero]
  omega

/-- A NUL character of the text is no piece. -/
theorem choice?_nul {rest : List Char} (h : m.cursor.rest = Cursor.sentinel :: rest) : choice? m.cursor = none := by
  have hend : m.cursor.atEnd = false := by simp [Cursor.atEnd, h]
  have hpeek : m.cursor.peek = Cursor.sentinel := by simp [Cursor.peek, h]
  have hline : m.cursor.startsWith ['/', '/'] = false := by
    rw [Cursor.startsWith_eq (by decide), h]
    rfl
  have hblock : m.cursor.startsWith ['/', '*'] = false := by
    rw [Cursor.startsWith_eq (by decide), h]
    rfl
  unfold choice?
  rw [hend, hpeek, hline, hblock]
  rfl

/--
The machine stops after at most two steps for each character of the text and two more, with the tokens of the text or
its first fault. On the way it stays in the text; it sees the end behind the last character and nowhere else, and in
front of a NUL character of the text it fails. Each state that the first one goes to fails, or ends the run at the end
of the text, or goes back to the first one behind at least one more character, where a lexeme begins.
-/
theorem run_progresses (file source : String) :
    run (2 * source.length + 2) .start (ofText file source.toList) = some (tokenize source file) ∧
    (∀ q m, Reached file source q m → m.cursor.text = source.toList ∧ m.position ≤ source.length ∧
      (m.cursor.atEnd ↔ m.position = source.length)) ∧
    ∀ m, Reached file source .start m → m.cursor.lexeme = [] ∧
      (∀ rest, m.cursor.rest = Cursor.sentinel :: rest →
        m.step .start = .error ⟨.unexpectedCharacter Cursor.sentinel, m.place⟩) ∧
      ∀ q? m₁, m.step .start = .ok (q?, m₁) → ∃ q, q? = some q ∧ q ≠ .start ∧ m₁.cursor = m.cursor ∧
        (q = .endOfText ↔ m.position = source.length) ∧
        match m₁.step q with
        | .error _ => m.position < source.length
        | .ok (none, _) => m.position = source.length
        | .ok (some q', m₂) => q' = .start ∧ m.position < m₂.position ∧ m₂.cursor.lexeme = [] := by
  refine ⟨?_, fun q m hm => ?_, fun m hm => ⟨?_, fun rest hrest => ?_, ?_⟩⟩
  · have hrun := run_tokens (m := ofText file source.toList) rfl
    have hrest : (ofText file source.toList).cursor.rest.length = source.length := String.length_toList
    rw [hrest] at hrun
    rw [hrun, tokenize]
    change some ((Scanner.start file source.toList).tokens.map ([] ++ ·)) = _
    cases (Scanner.start file source.toList).tokens <;> rfl
  · exact ⟨hm.ready.2, by have := hm.position_add; omega, hm.atEnd_iff⟩
  · rw [Cursor.lexeme, hm.ready.1.taken]
    rfl
  · rw [step, onStart, choice?_nul hrest]
    dsimp only [fail]
    rw [Cursor.peek, hrest]
    rfl
  · intro q? m₁ hstep
    obtain ⟨q, rfl, hchoice, rfl⟩ := step_start hstep
    have hposition := hm.position_add
    have hdone := step_chosen (inFront_mark hm.ready.1.taken) hchoice
    refine ⟨q, rfl, ?_, rfl, ?_, ?_⟩
    · rintro rfl
      exact choice?_ne_start m.cursor hchoice
    · rw [← hm.atEnd_iff, Cursor.atEnd, List.isEmpty_iff, ← choice?_endOfText, hchoice, Option.some.injEq]
    · cases hresult : m.mark.step q with
      | error d =>
        rw [hresult] at hdone
        have hpos : 0 < m.cursor.rest.length := List.length_pos_iff.mpr hdone
        change m.position < source.length
        omega
      | ok result =>
        obtain ⟨q', m₂⟩ := result
        rw [hresult] at hdone
        cases q' with
        | none =>
          have hend : m.cursor.rest = [] := hdone
          exact hm.atEnd_iff.mp (List.isEmpty_iff.mpr hend)
        | some q' =>
          obtain ⟨rfl, hleaves, hlt⟩ := hdone
          have hlt : m₂.cursor.rest.length < m.cursor.rest.length := hlt
          have htext : m₂.cursor.text.length = source.length := by
            rw [hleaves.text, ← String.length_toList]
            exact congrArg List.length hm.ready.2
          have hposition₂ := m₂.position_add
          refine ⟨rfl, by omega, ?_⟩
          rw [Cursor.lexeme, hleaves.taken]
          rfl

end Machine

end Offside
