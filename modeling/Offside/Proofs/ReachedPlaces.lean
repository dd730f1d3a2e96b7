import Offside.Proofs.ScanFaults
import Offside.Proofs.TextPieces
import Offside.Proofs.WordPlaces

/-!
# Places that are reached

A text is read piece by piece as far as nothing in it is wrong. Every piece takes a character or more, so a
fault at a place that is reached is the fault of what begins there, and not of anything behind it.
-/

namespace Offside

set_option autoImplicit false

open Scanner (Run start)

/-- Everything in front of `rest` is read. -/
structure Reaches (file : String) (source before rest : List Char) : Prop where
  cut : source = before ++ rest
  run : ∃ read s, Run (start file source) read s ∧ s.At file before rest

variable {file : String} {source before rest cs : List Char} {c : Char} {fault : Fault}

theorem reaches_start (file : String) (source : List Char) : Reaches file source [] source :=
  ⟨rfl, [], start file source, .refl _, Scanner.at_start file source⟩

namespace Scanner

variable {s : Scanner} {d : Diagnostic}

/-- Reading on from a place finds faults at places further on. -/
theorem At.place_of_error (h : s.At file before rest) (ht : s.tokens = .error d) :
    ∃ text, d.location = placeAfter file (before ++ text) := by
  obtain ⟨read, s', c, cs, fault, hrun, -, -, rfl⟩ := tokens_eq_error.mp ht
  obtain ⟨text, rest', -, -, hat⟩ := hrun.parted h
  exact ⟨text, hat.place⟩

/-- What fails where a scanner stands is the piece that begins there. -/
theorem At.fails_iff (h : s.At file before (c :: cs)) :
    s.tokens = .error ⟨fault, placeAfter file before⟩ ↔ s.Fails c cs fault := by
  constructor
  · intro ht
    have htokens := tokens_of_piece h.rest
    cases hp : s.piece c cs with
    | error found =>
      rw [hp, ht, Except.error.injEq, Diagnostic.mk.injEq] at htokens
      exact fails_of_piece h.rest (htokens.1 ▸ hp)
    | ok result =>
      obtain ⟨read, s'⟩ := result
      obtain ⟨text, rest, -, hpiece, hat⟩ := (step_of_piece hp).isPiece h
      rw [hp, ht] at htokens
      cases hs : s'.tokens with
      | ok ts => simp [hs, Except.map] at htokens
      | error d =>
        simp only [hs, Except.map, Except.error.injEq] at htokens
        obtain ⟨more, hmore⟩ := hat.place_of_error hs
        rw [← htokens, List.append_assoc] at hmore
        have hne : text ++ more ≠ [] := List.append_ne_nil_of_left_ne_nil hpiece.ne_nil more
        exact absurd hmore (placeAfter_ne hne)
  · intro hfails
    rw [tokens_of_piece h.rest, piece_of_fails h.rest hfails, h.place]

theorem fails_word_iff (hbreak : c ∉ breaks) (ho : Lexeme.opensComment (c :: cs) = false) :
    s.Fails c cs fault ↔ Lexeme.next c cs = .error fault := by
  constructor
  · intro h
    cases h with
    | indentation hblank =>
      have hmem : c ∈ breaks := List.mem_cons_of_mem _ (by simpa [isBlank] using hblank)
      exact absurd hmem hbreak
    | comment => cases ho
    | lexeme _ _ hnext => exact hnext
  · exact .lexeme hbreak ho

end Scanner

/-- Reading on from a place that is reached fails there if the scanner that stands there does. -/
theorem Reaches.fails_iff (h : Reaches file source before (c :: cs)) :
    ∃ s : Scanner, s.At file before (c :: cs) ∧ ∀ fault,
      (start file source).tokens = .error ⟨fault, placeAfter file before⟩ ↔ s.Fails c cs fault := by
  obtain ⟨-, read, s, hrun, hat⟩ := h
  refine ⟨s, hat, fun fault => ?_⟩
  rw [← hat.fails_iff, hrun.tokens]
  cases s.tokens with
  | ok ts => simp [Except.map]
  | error d => rfl

/-- A word fails where it begins if it is none. -/
theorem Reaches.word_fails_iff (h : Reaches file source before (c :: cs)) (hbreak : c ∉ breaks)
    (ho : Lexeme.opensComment (c :: cs) = false) :
    (start file source).tokens = .error ⟨fault, placeAfter file before⟩ ↔
      Lexeme.next c cs = .error fault := by
  obtain ⟨s, -, hfails⟩ := h.fails_iff
  rw [hfails, Scanner.fails_word_iff hbreak ho]

/-- Whatever is wrong with a text is wrong at a place that is reached. -/
theorem exists_reaches_of_error {d : Diagnostic} (h : (start file source).tokens = .error d) :
    ∃ before c cs, ∃ s : Scanner, Reaches file source before (c :: cs) ∧ s.At file before (c :: cs) ∧
      s.Fails c cs d.fault ∧ d.location = placeAfter file before := by
  obtain ⟨read, s, c, cs, fault, hrun, hrest, hp, rfl⟩ := Scanner.tokens_eq_error.mp h
  obtain ⟨before, rest, hcut, -, hat⟩ := hrun.parted (Scanner.at_start file source)
  obtain rfl : c :: cs = rest := hrest.symm.trans hat.rest
  exact ⟨before, c, cs, s, ⟨hcut, read, s, hrun, hat⟩, hat, Scanner.fails_of_piece hrest hp, hat.place⟩

end Offside
