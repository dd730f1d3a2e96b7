import Offside.Proofs.SourceSpans

/-!
# The places of words

Every word takes a character or more, so no two words of a text have the same place. The end of a statement
takes none: it may share its place with the end of the file.
-/

namespace Offside

set_option autoImplicit false

variable {file : String} {before text rest : List Char} {ts : List Token}

/-- A text that goes on stands further down, or further to the right in the same line. -/
theorem placeAfter_ne (hne : text ≠ []) : placeAfter file before ≠ placeAfter file (before ++ text) := by
  intro heq
  by_cases hn : '\n' ∈ text
  · have hline := congrArg Location.line heq
    have hpos := List.count_pos_iff.mpr hn
    simp only [placeAfter, List.count_append] at hline
    omega
  · rw [placeAfter_append file before hn] at heq
    have hcolumn := congrArg Location.column heq
    have hpos := List.length_pos_iff.mpr hne
    dsimp only at hcolumn
    omega

theorem Token.Spells.ne_nil {t : Token} {span : List Char} (h : t.Spells span) : span ≠ [] := by
  cases h with
  | plain hne => exact hne
  | string => exact List.cons_ne_nil _ _
  | char => exact List.cons_ne_nil _ _
  | hexadecimal => exact List.cons_ne_nil _ _

theorem exists_of_mem_lineEnds {place : Location} (h : place ∈ lineEnds file before text) :
    ∃ passed, passed ++ ['\n'] <+: text ∧ place = placeAfter file (before ++ passed) := by
  induction text generalizing before with
  | nil => cases h
  | cons c text ih =>
    rw [lineEnds, List.mem_append] at h
    rcases h with h | h
    · split at h
      · next hc =>
        subst hc
        obtain rfl := List.mem_singleton.mp h
        exact ⟨[], by simp, by rw [List.append_nil]⟩
      · cases h
    · obtain ⟨passed, hpassed, rfl⟩ := ih h
      refine ⟨c :: passed, by simpa using hpassed, by simp⟩

/-- Every token has a place in the text. -/
theorem Covers.place (h : Covers file before rest ts) {t : Token} (ht : t ∈ ts) :
    ∃ text, text <+: rest ∧ t.location = placeAfter file (before ++ text) := by
  have hhere {before rest : List Char} {t : Token} (hplace : t.location = placeAfter file before) :
      ∃ text, text <+: rest ∧ t.location = placeAfter file (before ++ text) :=
    ⟨[], List.nil_prefix, by rw [List.append_nil, hplace]⟩
  induction h with
  | done => exact hhere (List.mem_singleton.mp ht ▸ rfl)
  | finish _ hplace =>
    rcases List.mem_cons.mp ht with rfl | ht
    · exact hhere hplace
    · exact hhere (List.mem_singleton.mp ht ▸ rfl)
  | @gap before text rest stops _ _ _ hplaces _ ih =>
    rcases List.mem_append.mp ht with ht | ht
    · obtain ⟨passed, hpassed, hplace⟩ :=
        exists_of_mem_lineEnds (hplaces.subset (List.mem_map_of_mem ht))
      have htext : passed <+: text := (List.prefix_append passed ['\n']).trans hpassed
      exact ⟨passed, htext.trans (List.prefix_append text rest), hplace⟩
    · obtain ⟨more, hmore, hplace⟩ := ih ht
      exact ⟨text ++ more, (List.prefix_append_right_inj text).mpr hmore,
        by rw [hplace, List.append_assoc]⟩
  | @word before span rest _ _ _ hplace _ ih =>
    rcases List.mem_cons.mp ht with rfl | ht
    · exact hhere hplace
    · obtain ⟨more, hmore, hplace⟩ := ih ht
      exact ⟨span ++ more, (List.prefix_append_right_inj span).mpr hmore,
        by rw [hplace, List.append_assoc]⟩

/-- No two words have the same place. -/
def Apart (ts : List Token) : Prop :=
  ts.Pairwise fun t u => t.endsStatement = false → u.endsStatement = false → t.location ≠ u.location

theorem Covers.apart (h : Covers file before rest ts) : Apart ts := by
  induction h with
  | done => exact List.pairwise_singleton _ _
  | finish hk =>
    refine List.pairwise_cons.mpr ⟨fun u hu ht => ?_, List.pairwise_singleton _ _⟩
    rw [Token.endsStatement_of_kind hk] at ht
    cases ht
  | gap _ hstops _ _ ih =>
    refine List.pairwise_append.mpr ⟨?_, ih, ?_⟩
    · refine List.pairwise_of_forall_mem_list fun t ht u _ hword => ?_
      rw [Token.endsStatement_of_kind (hstops t ht)] at hword
      cases hword
    · intro t ht u _ hword
      rw [Token.endsStatement_of_kind (hstops t ht)] at hword
      cases hword
  | @word before span _ t _ hspells hplace hcovers ih =>
    refine List.pairwise_cons.mpr ⟨fun u hu _ _ => ?_, ih⟩
    obtain ⟨more, -, hmore⟩ := hcovers.place hu
    rw [hplace, hmore, List.append_assoc]
    exact placeAfter_ne fun h => hspells.ne_nil (List.append_eq_nil_iff.mp h).1

/-- Whatever has been read before, the tokens of the rest of a text cover it. -/
theorem Scanner.At.covers {s : Scanner} (h : s.At file before rest) (ht : s.tokens = .ok ts) :
    Covers file before rest ts := by
  obtain ⟨read, s', hrun, hend, rfl⟩ := tokens_eq_ok.mp ht
  obtain ⟨text, rest', -, hat, hcovers⟩ := covers_run s'.finish hrun h
  obtain rfl : [] = rest' := hend.symm.trans hat.rest
  exact hcovers (covers_finish hat)

theorem apart_tokenize {source : String} (h : tokenize source file = .ok ts) : Apart ts :=
  ((Scanner.at_start file source.toList).covers h).apart

/-- Two words with something in between, or nothing, have different places. -/
theorem Apart.of_append {us vs : List Token} (h : Apart (us ++ vs)) {t u : Token} (ht : t ∈ us)
    (hu : u ∈ vs) (htw : t.endsStatement = false) (huw : u.endsStatement = false) :
    t.location ≠ u.location :=
  (List.pairwise_append.mp h).2.2 t ht u hu htw huw

/-- A place has one word. -/
theorem Apart.eq_of_location (h : Apart ts) {t u : Token} (ht : t ∈ ts) (hu : u ∈ ts)
    (htw : t.endsStatement = false) (huw : u.endsStatement = false) (hplace : t.location = u.location) :
    t = u := by
  induction ts with
  | nil => cases ht
  | cons a ts ih =>
    obtain ⟨hfirst, hrest⟩ := List.pairwise_cons.mp h
    rcases List.mem_cons.mp ht with rfl | hta
    · rcases List.mem_cons.mp hu with rfl | hua
      · rfl
      · exact absurd hplace (hfirst u hua htw huw)
    · rcases List.mem_cons.mp hu with rfl | hua
      · exact absurd hplace.symm (hfirst t hta huw htw)
      · exact ih hrest hta hua

end Offside
