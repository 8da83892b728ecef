/-!
# ConfidentialPayment.Text.CharClass

Classes of characters, given as ranges of code points with both ends included.

The ranges come in order and apart, which is part of the type, so a look-up stops at the first
range behind the character. The main statement is `contains_iff`: nothing is missed by stopping.
-/

namespace ConfidentialPayment.Text

/-- The ranges come in order from `least` on, none is empty, and between any two stands a code
point outside. -/
def ascendingFrom (least : Nat) : List (Nat × Nat) → Bool
  | [] => true
  | (first, last) :: rest => least ≤ first && first ≤ last && ascendingFrom (last + 2) rest

/-- A class of characters. -/
structure CharClass where
  ranges : List (Nat × Nat)
  ascending : ascendingFrom 0 ranges = true := by decide +kernel

/-- Look a code point up in ascending ranges. -/
def inRanges (n : Nat) : List (Nat × Nat) → Bool
  | [] => false
  | (first, last) :: rest => first ≤ n && (n ≤ last || inRanges n rest)

/-- Ascending ranges begin at their least code point or later. -/
theorem le_of_ascendingFrom {least : Nat} {rs : List (Nat × Nat)}
    (h : ascendingFrom least rs = true) : ∀ r ∈ rs, least ≤ r.1 := by
  induction rs generalizing least with
  | nil => simp
  | cons head rest ih =>
    simp only [ascendingFrom, Bool.and_eq_true, decide_eq_true_eq] at h
    intro r hr
    rcases List.mem_cons.1 hr with rfl | hr
    · exact h.1.1
    · have := ih h.2 r hr
      omega

/-- The look-up finds the code points that lie in a range. -/
theorem inRanges_iff {least n : Nat} {rs : List (Nat × Nat)}
    (h : ascendingFrom least rs = true) :
    inRanges n rs = true ↔ ∃ r ∈ rs, r.1 ≤ n ∧ n ≤ r.2 := by
  induction rs generalizing least with
  | nil => simp [inRanges]
  | cons head rest ih =>
    simp only [ascendingFrom, Bool.and_eq_true, decide_eq_true_eq] at h
    have later := le_of_ascendingFrom h.2
    simp only [inRanges, Bool.and_eq_true, Bool.or_eq_true, decide_eq_true_eq, ih h.2]
    constructor
    · rintro ⟨hfirst, hlast | ⟨r, hr, hn⟩⟩
      · exact ⟨head, List.mem_cons_self, hfirst, hlast⟩
      · exact ⟨r, List.mem_cons_of_mem _ hr, hn⟩
    · rintro ⟨r, hr, hn⟩
      rcases List.mem_cons.1 hr with rfl | hr
      · exact ⟨hn.1, Or.inl hn.2⟩
      · have := later r hr
        exact ⟨by omega, Or.inr ⟨r, hr, hn⟩⟩

namespace CharClass

/-- Whether a character is in a class. -/
def contains (cls : CharClass) (c : Char) : Bool := inRanges c.toNat cls.ranges

/-- A class holds the characters whose code points lie in its ranges. -/
theorem contains_iff {cls : CharClass} {c : Char} :
    cls.contains c = true ↔ ∃ r ∈ cls.ranges, r.1 ≤ c.toNat ∧ c.toNat ≤ r.2 :=
  inRanges_iff cls.ascending

end CharClass

end ConfidentialPayment.Text
