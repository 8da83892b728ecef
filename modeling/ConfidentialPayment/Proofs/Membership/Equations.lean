import Mathlib.Algebra.Module.Basic
import Mathlib.Data.List.FinRange
import ConfidentialPayment.Membership.Witness
import ConfidentialPayment.Proofs.Pedersen
import ConfidentialPayment.Proofs.Polynomial
import ConfidentialPayment.Proofs.Runs
import ConfidentialPayment.Proofs.Scalar.Vector

/-!
# ConfidentialPayment.Proofs.Membership.Equations

What the equations of a membership proof say, and the weights that they give to a ring.

The weight of a member is the value of its polynomial at the challenge. Written by powers of the
challenge (`ringWeight_eq_sum`), it reaches the third power for the secret index only, and the
prover's commitment has exactly the lower coefficients. Completeness, soundness and hiding all
start from this form.
-/

namespace ConfidentialPayment.Membership

/-! ## Equations -/

section Equations

variable {P : Type} [Suite P] {gens : Generators P} {ring : List P} {x : Scalar}
  {c : Commitment P} {r : Response}

/-- The equations are two for each digit, and one for the ring. -/
theorem forall_equations_iff :
    (∀ e ∈ equations gens ring x c r, e.Holds) ↔
      (∀ j < digitCount, (valueEquation gens x c r j).Holds ∧ (bitEquation gens x c r j).Holds) ∧
        (ringEquation gens ring x c r).Holds := by
  simp only [equations, List.forall_mem_append, List.forall_mem_flatMap, List.mem_range,
    List.forall_mem_cons]
  simp

omit [Suite P] in
/-- The shape is right if the ring and all lists of the proof have their lengths. -/
theorem checkShape_eq_ok_iff {proof : Proof P} :
    checkShape ring proof = .ok () ↔ ring.length = ringSize ∧ proof.isWellFormed := by
  unfold checkShape checkRing
  by_cases hring : ring.length = ringSize
  · by_cases hproof : proof.isWellFormed <;> simp [hring, hproof, bind, Except.bind]
  · simp [hring, bind, Except.bind]

/-- A proof is accepted exactly if its shape is right and all equations hold under its challenge. -/
theorem Proof.verify_eq_ok_iff {proof : Proof P} :
    proof.verify gens ring = .ok () ↔ ring.length = ringSize ∧ proof.isWellFormed ∧
      ∀ e ∈ equations gens ring (challenge ring proof.commitment) proof.commitment proof.response,
        e.Holds := by
  rw [verify, check_bind_eq_ok, checkShape_eq_ok_iff, and_assoc]
  exact and_congr_right' (and_congr_right' Equation.checkAll_eq_ok_iff)

/-- A well-formed proof is accepted exactly if its equations hold. -/
theorem Proof.verify_eq_ok_iff_of_checkShape {proof : Proof P}
    (h : checkShape ring proof = .ok ()) :
    proof.verify gens ring = .ok () ↔
      ∀ e ∈ equations gens ring (challenge ring proof.commitment) proof.commitment proof.response,
        e.Holds := by
  obtain ⟨hring, hproof⟩ := checkShape_eq_ok_iff.mp h
  rw [verify_eq_ok_iff, and_iff_right hring, and_iff_right hproof]

end Equations

/-! ## Weights -/

namespace Witness

variable {P : Type} (w : Witness P) (d : Randomness) (x : Scalar)

/-- The digits of an index are its bits. -/
theorem digits_eq_map_finRange (index : ℕ) :
    digits index = (List.finRange digitCount).map fun j : Fin digitCount => index.testBit j := by
  rw [digits, ← List.map_coe_finRange_eq_range, List.map_map]
  rfl

/-- The weight of a ring member is the value of its polynomial. -/
theorem ringWeight_maskedValue (i : ℕ) :
    ringWeight (List.ofFn (w.maskedValue d x)) x i =
      (((List.finRange digitCount).map (w.factor d i)).map fun f => f.1 * x + f.2).prod := by
  rw [ringWeight, digits_eq_map_finRange, List.ofFn_eq_map, List.zipWith_map, List.zipWith_self,
    List.map_map, Scalar.product_eq_prod]
  congr 2
  funext j
  simp only [Function.comp_apply, factor, maskedValue]
  split
  · ring
  · ring

/-- Only the polynomial of the secret index has a leading term. -/
theorem prod_slopes {i : ℕ} (hi : i < ringSize) :
    (((List.finRange digitCount).map (w.factor d i)).map Prod.fst).prod =
      if i = w.index then 1 else 0 := by
  have hslope (j : Fin digitCount) :
      (w.factor d i j).1 = Scalar.ofBit (i.testBit j == w.index.testBit j) := by
    unfold factor bit
    cases i.testBit j <;> cases w.index.testBit j <;> simp [Scalar.ofBit]
  rw [List.map_map]
  split
  · next heq =>
    refine List.prod_eq_one fun s hs => ?_
    obtain ⟨j, -, rfl⟩ := List.mem_map.mp hs
    rw [Function.comp_apply, hslope, heq, beq_self_eq_true]
    rfl
  · next hne =>
    obtain ⟨j, hj⟩ : ∃ j, i.testBit j ≠ w.index.testBit j := by
      by_contra! h
      exact hne (Nat.eq_of_testBit_eq h)
    have hlt : j < digitCount := by
      by_contra! hge
      have hpow : ringSize ≤ 2 ^ j := Nat.pow_le_pow_right (by decide) hge
      rw [Nat.testBit_lt_two_pow (hi.trans_le hpow),
        Nat.testBit_lt_two_pow (w.index_lt.trans_le hpow)] at hj
      exact hj rfl
    refine List.prod_eq_zero (List.mem_map.mpr ⟨⟨j, hlt⟩, List.mem_finRange _, ?_⟩)
    rw [Function.comp_apply, hslope, beq_false_of_ne hj]
    rfl

/-- The weight of a ring member by powers of the challenge. -/
theorem ringWeight_eq_sum {i : ℕ} (hi : i < ringSize) :
    ringWeight (List.ofFn (w.maskedValue d x)) x i =
      ∑ k ∈ Finset.range digitCount, (w.polynomial d i).coefficient k * x ^ k +
        (if i = w.index then 1 else 0) * x ^ digitCount := by
  have h := Polynomial.sum_coefficient_mul_pow ((List.finRange digitCount).map (w.factor d i)) x
  rw [List.length_map, List.length_finRange, w.prod_slopes d hi] at h
  rw [ringWeight_maskedValue, polynomial, ← h]

variable [Suite P] [LawfulGroup P]

/-- The ring weighted by the coefficients of the `k`-th power. -/
def coefficientSum (k : ℕ) : P :=
  weigh ((List.range ringSize).map fun i => (w.polynomial d i).coefficient k) w.ring

/-- The weighted ring by powers of the challenge: the leading term is the secret member. -/
theorem weigh_ringWeights :
    weigh (ringWeights (List.ofFn (w.maskedValue d x)) x) w.ring =
      ∑ k ∈ Finset.range digitCount, x ^ k • w.coefficientSum d k +
        x ^ digitCount • w.ring.getD w.index 0 := by
  have hmember (i : ℕ) (hi : i ∈ Finset.range ringSize) :
      ringWeight (List.ofFn (w.maskedValue d x)) x i • w.ring.getD i 0 =
        ∑ k ∈ Finset.range digitCount, x ^ k • (w.polynomial d i).coefficient k • w.ring.getD i 0 +
          if i = w.index then x ^ digitCount • w.ring.getD i 0 else 0 := by
    rw [w.ringWeight_eq_sum d x (Finset.mem_range.mp hi), add_smul, Finset.sum_smul]
    congr 1
    · refine Finset.sum_congr rfl fun k _ => ?_
      rw [mul_comm, mul_smul]
    · split <;> simp
  rw [ringWeights, weigh_map_range w.length_ring, Finset.sum_congr rfl hmember,
    Finset.sum_add_distrib, Finset.sum_comm, Finset.sum_ite_eq',
    if_pos (Finset.mem_range.mpr w.index_lt)]
  simp only [coefficientSum, weigh_map_range w.length_ring, Finset.smul_sum]

end Witness

end ConfidentialPayment.Membership
