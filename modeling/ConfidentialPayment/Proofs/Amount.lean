import Mathlib.Algebra.Module.Basic
import Mathlib.Algebra.BigOperators.Group.List.Basic
import ConfidentialPayment.Payment.Proof
import ConfidentialPayment.Proofs.Runs

/-!
# ConfidentialPayment.Proofs.Amount

A sum of amounts comes out exactly if it is a 64-bit number, and then it is the sum of the amounts
as integers.
-/

namespace ConfidentialPayment.Amount

/-- A checked sum is that of the integers, or there is none. -/
theorem add_eq_ok_iff {a b c : UInt64} : add a b = .ok c ↔ c.toNat = a.toNat + b.toNat := by
  unfold add
  by_cases h : a.toNat + b.toNat < UInt64.size
  · have hsum : (a + b).toNat = a.toNat + b.toNat :=
      (UInt64.toNat_add a b).trans (Nat.mod_eq_of_lt h)
    rw [if_pos h, Except.ok.injEq, ← hsum, UInt64.toNat_inj]
    exact eq_comm
  · have hlt : c.toNat < UInt64.size := c.toNat_lt
    rw [if_neg h]
    constructor
    · intro hc
      cases hc
    · intro hc
      omega

/-- Amounts added one by one give their sum as integers, or nothing if it fits no word. -/
theorem addAll_eq_ok_iff {first total : UInt64} {amounts : List UInt64} :
    addAll first amounts = .ok total ↔
      total.toNat = first.toNat + (amounts.map UInt64.toNat).sum := by
  induction amounts generalizing first with
  | nil =>
    rw [addAll, Except.ok.injEq, List.map_nil, List.sum_nil, Nat.add_zero, UInt64.toNat_inj]
    exact eq_comm
  | cons a amounts ih =>
    rw [addAll, bind_eq_ok, List.map_cons, List.sum_cons]
    simp only [add_eq_ok_iff, ih]
    constructor
    · rintro ⟨sum, hsum, htotal⟩
      omega
    · intro htotal
      have hlt : total.toNat < UInt64.size := total.toNat_lt
      have hsum : (UInt64.ofNat (first.toNat + a.toNat)).toNat = first.toNat + a.toNat :=
        UInt64.toNat_ofNat_of_lt' (by omega)
      exact ⟨_, hsum, by omega⟩

/-- The total of a list of amounts is their sum as integers, if that fits into a word. -/
theorem total_eq_ok_iff {amounts : List UInt64} {sum : UInt64} :
    total amounts = .ok sum ↔ sum.toNat = (amounts.map UInt64.toNat).sum := by
  rw [total, addAll_eq_ok_iff]
  simp

end ConfidentialPayment.Amount
