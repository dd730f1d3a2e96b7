import Offside.Proofs.BlockVariation

/-!
# Tokens at other places

Places are copied from tokens to trees and to errors, and nothing is decided by them. How the end of a
statement or of the file is written is not even copied.
-/

namespace Offside

set_option autoImplicit false

/-- The same token at another place; an end of a statement or of the file may be written otherwise. -/
structure Token.Relocates (t u : Token) : Prop where
  kind : u.kind = t.kind
  level : u.level = t.level
  type : u.type = t.type
  keyword : u.keyword = t.keyword
  text : t.endsStatement = false → u.text = t.text

/-- Any two places will do. -/
def Location.Anywhere (_ _ : Location) : Prop := True

/-- The second run has the tokens of the first one, at other places. -/
def relocated : Variation where
  words := Location.Anywhere
  stops := Location.Anywhere
  stops_of_words := id
  deeper := 0
  goesOn := False

theorem Token.Relocates.pair {t u : Token} (h : t.Relocates u) : relocated.Pair t u where
  kind := h.kind
  type := h.type
  keyword := h.keyword
  level := fun _ => h.level
  text := h.text
  place := trivial
  word := fun _ => trivial

variable {ts us : List Token}

/--
Tokens that differ in their places alone have trees that differ in their places alone, or the same fault.
-/
theorem parse_relocates (h : List.Forall₂ Token.Relocates ts us) :
    Likewise Location.Anywhere (Scope.Like Location.Anywhere) (parse ts) (parse us) := by
  have hpairs : List.Forall₂ relocated.Pair ts us := h.imp fun _ _ => Token.Relocates.pair
  have hshares := Variation.Shares.ofTokens_of_pairs trivial hpairs
  cases hts : parse ts with
  | ok s =>
    obtain ⟨s', hus, hlike⟩ := Variation.parse_ok rfl hshares id hts
    rw [hus]
    exact .ok hlike
  | error d =>
    rcases Variation.parse_error rfl hshares nofun hts with ⟨hgoes, -⟩ | ⟨e, hus, hlike⟩
    · exact hgoes.elim
    · rw [hus]
      exact .error hlike

/-- A token that stands nowhere; where a statement ends, it has no text. -/
def Token.displaced (t : Token) : Token :=
  { t with location := .nowhere, text := if t.endsStatement then "" else t.text }

/-- A branch that assigns to a variable, and the same tokens without their places. -/
theorem parse_relocates_branch :
    ∃ ts s s', tokenize "a := 1\nif a == 2\n    a = 3\n" "" = .ok ts ∧
      List.Forall₂ Token.Relocates ts (ts.map Token.displaced) ∧
      parse ts = .ok s ∧ s.frame = [.var ⟨"a", .int, false, ⟨"", 1, 1⟩⟩] ∧
      parse (ts.map Token.displaced) = .ok s' ∧ s'.frame = [.var ⟨"a", .int, false, .nowhere⟩] ∧
      s.Like Location.Anywhere s' := by
  have hframes : ((tokenize "a := 1\nif a == 2\n    a = 3\n" "").map fun ts =>
      ((parse ts).toOption.map (·.frame),
        (parse (ts.map Token.displaced)).toOption.map (·.frame))).toOption =
      some (some [.var ⟨"a", .int, false, ⟨"", 1, 1⟩⟩], some [.var ⟨"a", .int, false, .nowhere⟩]) := by
    decide +kernel
  obtain ⟨ts, hts, hboth⟩ := Execution.exists_ok_of_map hframes
  obtain ⟨hfirst, hsecond⟩ := Prod.mk.inj hboth
  have hdisplaced : List.Forall₂ Token.Relocates ts (ts.map Token.displaced) := by
    rw [List.forall₂_map_right_iff]
    refine List.forall₂_same.mpr fun t _ => ⟨rfl, rfl, rfl, rfl, fun ht => ?_⟩
    simp [Token.displaced, ht]
  have hlike := parse_relocates hdisplaced
  generalize hs : parse ts = r at hfirst hlike
  generalize hs' : parse (ts.map Token.displaced) = r' at hsecond hlike
  cases hlike with
  | error => cases hfirst
  | @ok s s' hlike =>
    exact ⟨ts, s, s', hts, hdisplaced, hs, Option.some.inj hfirst, hs', Option.some.inj hsecond, hlike⟩

end Offside
