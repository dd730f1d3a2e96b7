import Offside.Proofs.BlockVariation
import Offside.Proofs.LineComposition

/-!
# The first fault of a text

What stands below a text does not change its first fault, unless that fault is that the text ends too early.
-/

namespace Offside

set_option autoImplicit false

open Source (Cursor)

/-- The second text is the first one with more lines below: what they share has the same place in both. -/
def continued : Variation where
  words := Eq
  stops := Eq
  stops_of_words := id
  deeper := 0
  goesOn := True

variable {ts us read : List Token}

theorem continued_pair (t : Token) : continued.Pair t t :=
  ⟨rfl, rfl, rfl, fun _ => rfl, fun _ => rfl, rfl, fun _ => rfl⟩

theorem continued_append (h : continued.Shares ts us) : continued.Shares (read ++ ts) (read ++ us) := by
  induction read with
  | nil => exact h
  | cons t read ih => exact .cons (continued_pair t) ih

/-- Where the first text ends, the second one ends its line and goes on. -/
theorem Scanner.continued_finish (s : Scanner) (hne : us ≠ []) :
    continued.Shares s.finish (s.endLine.1 ++ us) := by
  have hends : continued.Shares [.endAt s.place] us := .ends trivial rfl hne
  unfold finish endLine
  cases s.written with
  | false => exact hends
  | true =>
    exact .cons ⟨rfl, rfl, rfl, fun _ => rfl, nofun, rfl, fun h => absurd (h.resolve_left nofun) nofun⟩ hends

theorem Scanner.tokens_ne_nil {s : Scanner} (h : s.tokens = .ok ts) : ts ≠ [] := by
  obtain ⟨read, s', -, -, rfl⟩ := tokens_eq_ok.mp h
  simp [finish]

theorem tokenize_continued {above below file : String} (habove : tokenize above file = .ok ts)
    (hjoined : tokenize (above ++ "\n" ++ below) file = .ok us) : continued.Shares ts us := by
  obtain ⟨read, s, hrun, hend, rfl⟩ := Scanner.tokens_eq_ok.mp habove
  have hfollows : (Scanner.start file above.toList).Follows 0 ('\n' :: below.toList)
      (Scanner.start file (above ++ "\n" ++ below).toList) :=
    ⟨rfl, by simp [Scanner.start, Cursor.ofText], rfl, rfl, rfl, .inl rfl⟩
  obtain ⟨t, hrun', hsteady, hbehind⟩ :=
    hfollows.run hrun (Scanner.steady_start ..) (stops_cons.mpr (by decide))
  have hrest : t.cursor.rest = '\n' :: below.toList := by rw [hbehind.rest, hend]; rfl
  have hstop : t.endLine.1 = s.endLine.1 := by
    rw [hbehind.read_endLine, Token.lower_zero, List.map_id]
  unfold tokenize at hjoined
  rw [hrun'.tokens, Scanner.tokens_of_piece hrest, Scanner.piece_newline, Token.lower_zero,
    List.map_id] at hjoined
  cases hmore : t.endLine.2.tokens with
  | error d => simp [hmore, Except.map] at hjoined
  | ok more =>
    simp only [hmore, Except.map, Except.ok.injEq] at hjoined
    rw [← hjoined, hstop]
    exact continued_append (s.continued_finish (Scanner.tokens_ne_nil hmore))

/-- Text behind the first fault never changes it. -/
theorem compile_first_fault {above below file : String} (habove : tokenize above file = .ok ts)
    (hjoined : tokenize (above ++ "\n" ++ below) file = .ok us) {d : Diagnostic}
    (h : compile file above = .error d) (hd : d.fault ≠ .unexpectedEnd) :
    compile file (above ++ "\n" ++ below) = .error d := by
  unfold compile at h ⊢
  rw [habove] at h
  rw [hjoined]
  have hlined := lined_tokenize habove
  have hshares := (tokenize_continued habove hjoined).ofTokens hlined (lined_tokenize hjoined)
  rcases Variation.parse_error rfl hshares (fun _ => hlined) h with ⟨-, hfault⟩ | ⟨e, he, hlike⟩
  · exact absurd hfault hd
  · obtain ⟨rfl⟩ := hlike
    exact he

/-- The comma that a loop lacks is not found on the next line. -/
theorem compile_first_fault_comma :
    ∃ ts us, tokenize "for i: int = 0, true" "" = .ok ts ∧
      tokenize ("for i: int = 0, true" ++ "\n" ++ ", i++\n    i") "" = .ok us ∧
      (⟨.expected "','", ⟨"", 1, 21⟩⟩ : Diagnostic).fault ≠ .unexpectedEnd ∧
      compile "" "for i: int = 0, true" = .error ⟨.expected "','", ⟨"", 1, 21⟩⟩ ∧
      compile "" ("for i: int = 0, true" ++ "\n" ++ ", i++\n    i") =
        .error ⟨.expected "','", ⟨"", 1, 21⟩⟩ := by
  have habove : (tokenize "for i: int = 0, true" "").toOption.isSome := by decide +kernel
  have hjoined : (tokenize ("for i: int = 0, true" ++ "\n" ++ ", i++\n    i") "").toOption.isSome := by
    decide +kernel
  have hfault : (match compile "" "for i: int = 0, true" with
      | .ok _ => none
      | .error d => some d) = some ⟨.expected "','", ⟨"", 1, 21⟩⟩ := by
    decide +kernel
  cases hts : tokenize "for i: int = 0, true" "" with
  | error d => simp [hts, Except.toOption] at habove
  | ok ts =>
    cases hus : tokenize ("for i: int = 0, true" ++ "\n" ++ ", i++\n    i") "" with
    | error d =>
      rw [hus] at hjoined
      cases hjoined
    | ok us =>
      cases hd : compile "" "for i: int = 0, true" with
      | ok s => simp [hd] at hfault
      | error d =>
        simp only [hd, Option.some.injEq] at hfault
        subst hfault
        exact ⟨ts, us, rfl, rfl, by decide, rfl, compile_first_fault hts hus hd (by decide)⟩

end Offside
