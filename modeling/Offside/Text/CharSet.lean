/-!
# Sets of characters

A set is a sorted list of disjoint ranges of code points, each given by its first and last member.
-/

namespace Offside.Text

set_option autoImplicit false

/-- Ranges in order, none empty and no two with a common member. -/
def Sorted : List (Nat × Nat) → Prop
  | [] => True
  | r :: rest => r.1 ≤ r.2 ∧ (∀ t ∈ rest.head?, r.2 < t.1) ∧ Sorted rest

instance decidableSorted : (ranges : List (Nat × Nat)) → Decidable (Sorted ranges)
  | [] => .isTrue trivial
  | _ :: rest =>
    have := decidableSorted rest
    inferInstanceAs (Decidable (_ ∧ _ ∧ _))

/-- Behind a range there are only greater ones. -/
theorem Sorted.lt_of_mem {r t : Nat × Nat} {rest : List (Nat × Nat)} (h : Sorted (r :: rest))
    (ht : t ∈ rest) : r.2 < t.1 := by
  induction rest generalizing r with
  | nil => cases ht
  | cons next rest ih =>
    obtain ⟨-, hnext, hrest⟩ := h
    have hlt : r.2 < next.1 := hnext next rfl
    cases ht with
    | head => exact hlt
    | tail _ ht => exact Nat.lt_trans (Nat.lt_of_lt_of_le hlt hrest.1) (ih hrest ht)

structure CharSet where
  ranges : List (Nat × Nat)
  sorted : Sorted ranges

namespace CharSet

/-- The search stops at the first range that ends at or after the code point. -/
def covers : List (Nat × Nat) → Nat → Bool
  | [], _ => false
  | (first, last) :: rest, n => if last < n then covers rest n else decide (first ≤ n)

def contains (s : CharSet) (c : Char) : Bool := covers s.ranges c.toNat

instance : Membership Char CharSet where
  mem s c := ∃ r ∈ s.ranges, r.1 ≤ c.toNat ∧ c.toNat ≤ r.2

theorem covers_iff {ranges : List (Nat × Nat)} (h : Sorted ranges) (n : Nat) :
    covers ranges n = true ↔ ∃ r ∈ ranges, r.1 ≤ n ∧ n ≤ r.2 := by
  induction ranges with
  | nil => simp [covers]
  | cons r rest ih =>
    by_cases hlast : r.2 < n
    · simp only [covers, hlast, if_true, ih h.2.2, List.mem_cons]
      constructor
      · rintro ⟨t, ht, hn⟩
        exact ⟨t, .inr ht, hn⟩
      · rintro ⟨t, rfl | ht, hn⟩
        · exact absurd hn.2 (Nat.not_le.2 hlast)
        · exact ⟨t, ht, hn⟩
    · simp only [covers, hlast, if_false, decide_eq_true_eq, List.mem_cons]
      constructor
      · intro hn
        exact ⟨r, .inl rfl, hn, Nat.not_lt.1 hlast⟩
      · rintro ⟨t, rfl | ht, hn⟩
        · exact hn.1
        · have hlt := h.lt_of_mem ht
          omega

theorem contains_iff (s : CharSet) (c : Char) : s.contains c = true ↔ c ∈ s :=
  covers_iff s.sorted c.toNat

instance (c : Char) (s : CharSet) : Decidable (c ∈ s) := decidable_of_iff _ (s.contains_iff c)

end CharSet

end Offside.Text
