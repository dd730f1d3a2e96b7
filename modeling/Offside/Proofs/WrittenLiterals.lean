import Offside.Proofs.LineStarts
import Offside.Proofs.LiteralValues

/-!
# Writing a literal

Every string and every character has a literal that stands for it. The quote that would end the literal is
escaped, and so are the backslash that would begin an escape and the line feed that may not stand in a literal;
all else stands for itself.
-/

namespace Offside

set_option autoImplicit false

open Lexeme (Forms IsStringBody IsUnit)
open Text.Escape (resolve)

/-- A character as it is written between quotes. -/
def written (quote c : Char) : List Char :=
  if c = '\\' ∨ c = quote then ['\\', c] else if c = '\n' then ['\\', 'n'] else [c]

def writtenString (s : String) : String := String.ofList ('"' :: s.toList.flatMap (written '"') ++ ['"'])

def writtenChar (c : Char) : String := String.ofList ('\'' :: written '\'' c ++ ['\''])

/-! ## What is written -/

/-- A character is written as an escape or as itself. -/
inductive IsWritten (quote c : Char) : List Char → Prop where
  | escape {e : Char} : e ≠ '\n' → Text.Escape.letter? e = some c → IsWritten quote c ['\\', e]
  | plain : c ≠ quote → c ≠ '\\' → c ≠ '\n' → IsWritten quote c [c]

theorem isWritten_written {quote : Char} (hquote : quote = '"' ∨ quote = '\'') (c : Char) :
    IsWritten quote c (written quote c) := by
  unfold written
  split
  · next hc =>
    rcases hc with rfl | rfl
    · exact .escape (by decide) rfl
    · rcases hquote with rfl | rfl
      · exact .escape (by decide) rfl
      · exact .escape (by decide) rfl
  · next hc =>
    obtain ⟨hslash, hne⟩ := not_or.mp hc
    split
    · next hline =>
      subst hline
      exact .escape (by decide) rfl
    · next hline => exact .plain hne hslash hline

theorem IsWritten.isUnit {c : Char} {text : List Char} (h : IsWritten '\'' c text) : IsUnit text := by
  cases h with
  | escape _ hletter => exact .letter (hletter ▸ rfl)
  | plain hquote hslash hline => exact .plain hquote hslash hline

theorem IsWritten.isStringBody {c : Char} {text body : List Char} (h : IsWritten '"' c text)
    (hbody : IsStringBody body) : IsStringBody (text ++ body) := by
  cases h with
  | escape hline => exact .escaped hline hbody
  | plain hquote hslash hline => exact .plain hquote hslash hline hbody

/-- An escape is resolved in a string as in a character literal. -/
theorem IsWritten.resolve {quote c : Char} {text : List Char} (h : IsWritten quote c text) (decimal : Bool)
    (rest : List Char) : resolve decimal (text ++ rest) = c :: resolve decimal rest := by
  cases h with
  | escape _ hletter => exact resolve_letter hletter decimal rest
  | plain _ hslash => exact resolve_plain hslash decimal rest

theorem isStringBody_written (text : List Char) : IsStringBody (text.flatMap (written '"')) := by
  induction text with
  | nil => exact .nil
  | cons c text ih =>
    rw [List.flatMap_cons]
    exact (isWritten_written (.inl rfl) c).isStringBody ih

theorem resolve_written (text : List Char) : resolve false (text.flatMap (written '"')) = text := by
  induction text with
  | nil => rw [List.flatMap_nil, Text.Escape.resolve]
  | cons c text ih => rw [List.flatMap_cons, (isWritten_written (.inl rfl) c).resolve, ih]

/-! ## What is read -/

/-- The text is one literal, the only statement, and has the value. -/
def ReadsAs (source file : String) (v : Value) : Prop :=
  ∃ t, tokenize source file =
      .ok [t, .plain .endOfStatement "" ⟨file, 1, 1 + source.length⟩ 0,
        .endAt ⟨file, 1, 1 + source.length⟩] ∧
    t.kind = .literal ∧ t.type = some v.type ∧ Literal.ofToken t = .ok ⟨v, ⟨file, 1, 1⟩⟩

/-- A text that is a single word has the token of that word and the two ends. -/
theorem tokenize_word {source : String} {l : Lexeme} (file : String) (h : Forms source.toList l []) :
    tokenize source file =
      .ok [l.token ⟨file, 1, 1⟩ 0, .plain .endOfStatement "" ⟨file, 1, 1 + source.length⟩ 0,
        .endAt ⟨file, 1, 1 + source.length⟩] := by
  have hat : (Scanner.start file source.toList).At file [] (source.toList ++ []) := by
    rw [List.append_nil]
    exact Scanner.at_start ..
  obtain ⟨s, hrun, hend, hlevel, hwritten⟩ := hat.run_word h
  have hplace := hend.place
  rw [placeAfter_append file [] h.newline_not_mem, String.length_toList] at hplace
  rw [tokenize, hrun.tokens, Scanner.tokens_of_end hend.rest, Scanner.finish_of_written hwritten, hlevel,
    hplace]
  rfl

theorem readsAs_of_forms {source : String} {l : Lexeme} {v : Value} (file : String)
    (h : Forms source.toList l []) (hk : l.kind = .literal) (htype : l.type = some v.type)
    (hv : Value.read? (String.ofList l.text) v.type = some v) : ReadsAs source file v := by
  refine ⟨_, tokenize_word file h, hk, htype, ?_⟩
  simp only [Literal.ofToken, Lexeme.token, htype, hv]

/-- Every string and every character has a literal. -/
theorem written_readsAs (file : String) :
    (∀ s : String, ReadsAs (writtenString s) file (.string s)) ∧
      ∀ c : Char, ReadsAs (writtenChar c) file (.char c) := by
  constructor
  · intro s
    have hforms := @Forms.string _ [] (isStringBody_written s.toList)
    rw [← String.toList_ofList (l := '"' :: _ ++ _)] at hforms
    refine readsAs_of_forms file hforms rfl rfl ?_
    change some (Value.string (Text.Escape.resolveText false (String.ofList _))) = _
    rw [Text.Escape.resolveText, String.toList_ofList, resolve_written, String.ofList_toList]
  · intro c
    have hwritten := isWritten_written (.inr rfl) c
    have hforms := @Forms.character _ [] hwritten.isUnit
    rw [← String.toList_ofList (l := '\'' :: _ ++ _)] at hforms
    refine readsAs_of_forms file hforms rfl rfl ?_
    have hresolve := hwritten.resolve true []
    rw [List.append_nil, Text.Escape.resolve] at hresolve
    simp only [Value.type, Value.read?, String.toList_ofList, hresolve]

end Offside
