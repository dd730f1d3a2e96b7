import Offside.Proofs.FaultPlaces
import Offside.Proofs.Totality
import Offside.Proofs.TextLines
import Offside.Proofs.WordPlaces

/-!
# Reported places

Whatever is wrong with a text, the place that is reported is one of the text: the scanner fails where it
stands, and the parser at the place of a token. So a report always has a line to quote.
-/

namespace Offside

set_option autoImplicit false

open Execution

/-- A place in front of a character of the text, or behind the last character of a line. -/
structure Location.IsIn (file : String) (text : List Char) (l : Location) : Prop where
  file_eq : l.file = file
  line_pos : 1 ≤ l.line
  line_le : l.line ≤ (Source.split text).length
  column_pos : 1 ≤ l.column
  column_le : ∀ line ∈ (Source.split text)[l.line - 1]?, l.column ≤ line.length + 1

variable {file : String} {before rest : List Char} {ts : List Token} {d : Diagnostic}

theorem Location.IsIn.line? {source : String} {l : Location} (h : l.IsIn file source.toList) :
    ∃ line, (Source.split source.toList)[l.line - 1]? = some line ∧ l.column ≤ line.length + 1 ∧
      Source.line? source l.line = some (Source.dropReturn line) := by
  have hlt : l.line - 1 < (Source.split source.toList).length := by
    have := h.line_pos
    have := h.line_le
    omega
  obtain ⟨line, hline⟩ : ∃ line, (Source.split source.toList)[l.line - 1]? = some line :=
    ⟨_, List.getElem?_eq_getElem hlt⟩
  obtain ⟨n, hn⟩ : ∃ n, l.line = n + 1 := ⟨l.line - 1, by have := h.line_pos; omega⟩
  refine ⟨line, hline, h.column_le line hline, ?_⟩
  rw [hn, Nat.add_sub_cancel] at hline
  simp [hn, Source.line?, hline]

end Offside
