import Mathlib.Data.List.Induction
import Offside.Proofs.Scanning

/-!
# The lines of a text

Where the lines of a text begin, the places in a line, and the line that a number stands for.
-/

namespace Offside

set_option autoImplicit false

/-! ## Beginnings of lines -/

/-- A line begins behind the text. -/
def StartsLine (above : List Char) : Prop := ∀ c ∈ above.getLast?, c = '\n'

section StartsLine

variable {above line rest : List Char} {c : Char}

theorem startsLine_nil : StartsLine [] := nofun

theorem startsLine_append_newline (text : List Char) : StartsLine (text ++ ['\n']) := by
  rintro c hc
  rw [List.getLast?_append] at hc
  exact (Option.some.inj hc).symm

theorem StartsLine.eq_nil_or_append (h : StartsLine above) :
    above = [] ∨ ∃ text, above = text ++ ['\n'] := by
  rcases List.eq_nil_or_concat above with rfl | ⟨text, c, rfl⟩
  · exact .inl rfl
  · obtain rfl : c = '\n' := h c (by simp)
    exact .inr ⟨text, by rw [List.concat_eq_append]⟩

theorem StartsLine.of_append (h : StartsLine (line ++ rest)) : StartsLine rest := by
  intro c hc
  apply h
  rw [List.getLast?_append, Option.mem_def.mp hc]
  rfl

/-- A text that a line begins behind has a line feed, if it has anything. -/
theorem StartsLine.newline_mem (h : StartsLine above) (hne : above ≠ []) : '\n' ∈ above := by
  rcases h.eq_nil_or_append with rfl | ⟨text, rfl⟩
  · exact absurd rfl hne
  · exact List.mem_append_right text (List.mem_singleton_self _)

/-- A text ends in its last line. -/
theorem exists_startsLine (text : List Char) :
    ∃ above line, text = above ++ line ∧ StartsLine above ∧ '\n' ∉ line := by
  induction text using List.reverseRecOn with
  | nil => exact ⟨[], [], rfl, startsLine_nil, nofun⟩
  | append_singleton text c ih =>
    by_cases hc : c = '\n'
    · subst hc
      exact ⟨text ++ ['\n'], [], (List.append_nil _).symm, startsLine_append_newline text, nofun⟩
    · obtain ⟨above, line, rfl, habove, hline⟩ := ih
      refine ⟨above, line ++ [c], List.append_assoc .., habove, ?_⟩
      rw [List.mem_append, List.mem_singleton, not_or]
      exact ⟨hline, Ne.symm hc⟩

end StartsLine

/-! ## Places -/

section Places

variable {above line : List Char}

theorem StartsLine.placeAfter (h : StartsLine above) (file : String) :
    placeAfter file above = ⟨file, 1 + above.count '\n', 1⟩ := by
  rcases h.eq_nil_or_append with rfl | ⟨text, rfl⟩
  · rfl
  · rw [placeAfter_newline, List.count_append, List.count_singleton_self]
    simp only [Offside.placeAfter, Location.mk.injEq, true_and, and_true]
    omega

theorem StartsLine.placeAfter_append (h : StartsLine above) (hline : '\n' ∉ line) (file : String) :
    Offside.placeAfter file (above ++ line) = ⟨file, 1 + above.count '\n', 1 + line.length⟩ := by
  rw [Offside.placeAfter_append file above hline, h.placeAfter]

end Places

/-! ## Cut at its line feeds -/

namespace Source

variable {c : Char}

end Source

end Offside
