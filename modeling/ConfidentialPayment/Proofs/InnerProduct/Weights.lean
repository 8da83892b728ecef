import Mathlib.Algebra.BigOperators.Group.Finset.Basic
import ConfidentialPayment.Proofs.InnerProduct.Completeness

/-!
# ConfidentialPayment.Proofs.InnerProduct.Weights

The weights of a verifier, base by base.

1. The weight of a base is the product of all challenges, each inverted unless the binary digit of
   the base that its round halves by is set (`getElem?_foldWeights`). The number of the last base
   less that of a base has the opposite digits, so its weight is the inverse (`weightAt_opposite`).
2. A list that is doubled by each factor has at every place but the first what an earlier place has,
   times the factor of the leading digit (`exists_getElem?_doubled`).
-/

namespace ConfidentialPayment.InnerProduct

/-! ## Weights by digits -/

/-- The weight of base `i`: the first challenge belongs to the most significant digit. -/
def weightAt (xs : List Scalar) (i : ℕ) : Scalar :=
  ∏ j ∈ Finset.range xs.length,
    if i.testBit (xs.length - 1 - j) then xs.getD j 0 else (xs.getD j 0)⁻¹

/-- The first challenge contributes by the leading digit of a position. -/
theorem weightAt_cons (x : Scalar) (xs : List Scalar) (i : ℕ) :
    weightAt (x :: xs) i = (if i.testBit xs.length then x else x⁻¹) * weightAt xs i := by
  rw [weightAt, List.length_cons, Finset.prod_range_succ', mul_comm]
  congr 1
  refine Finset.prod_congr rfl fun j _ => ?_
  rw [List.getD_cons_succ, show xs.length + 1 - 1 - (j + 1) = xs.length - 1 - j by omega]

/-- Digits above the challenges do not count. -/
theorem weightAt_add (xs : List Scalar) (i : ℕ) :
    weightAt xs (2 ^ xs.length + i) = weightAt xs i := by
  refine Finset.prod_congr rfl fun j hj => ?_
  have hlt : xs.length - 1 - j < xs.length := by
    have := Finset.mem_range.mp hj
    omega
  rw [Nat.testBit_two_pow_add_gt hlt]

/-- The weights of folding are those that the digits of the positions give. -/
theorem getElem?_foldWeights {xs : List Scalar} (hxs : ∀ x ∈ xs, x ≠ 0) {i : ℕ}
    (hi : i < 2 ^ xs.length) : (foldWeights xs)[i]? = some (weightAt xs i) := by
  induction xs generalizing i with
  | nil =>
    obtain rfl : i = 0 := Nat.lt_one_iff.mp hi
    simp [foldWeights, weightAt]
  | cons x xs ih =>
    obtain ⟨hx, hxs⟩ := List.forall_mem_cons.mp hxs
    have hlength : ((foldWeights xs).map (x⁻¹ * ·)).length = 2 ^ xs.length := by
      rw [List.length_map, length_foldWeights]
    rw [foldWeights_cons hx, weightAt_cons]
    by_cases hhalf : i < 2 ^ xs.length
    · rw [List.getElem?_append_left (hlength ▸ hhalf), List.getElem?_map, ih hxs hhalf,
        Nat.testBit_lt_two_pow hhalf, Option.map_some, if_neg Bool.false_ne_true]
    · obtain ⟨i, rfl⟩ := Nat.exists_eq_add_of_le (Nat.le_of_not_lt hhalf)
      have hi' : i < 2 ^ xs.length := by
        rw [List.length_cons, Nat.pow_succ] at hi
        omega
      have hset : (2 ^ xs.length + i).testBit xs.length = true := by
        rw [Nat.testBit_two_pow_add_eq, Nat.testBit_lt_two_pow hi', Bool.not_false]
      have hupper : ((foldWeights xs).map (x⁻¹ * ·)).length ≤ 2 ^ xs.length + i := by
        rw [hlength]
        exact Nat.le_add_right ..
      rw [List.getElem?_append_right hupper, hlength, Nat.add_sub_cancel_left, List.getElem?_map,
        ih hxs hi', weightAt_add, hset, if_pos rfl, Option.map_some]

/-- Opposite digits make the inverse. -/
theorem weightAt_opposite (xs : List Scalar) {i : ℕ} (hi : i < 2 ^ xs.length) :
    weightAt xs (2 ^ xs.length - 1 - i) = (weightAt xs i)⁻¹ := by
  rw [weightAt, weightAt, ← Finset.prod_inv_distrib, Nat.sub_sub, Nat.add_comm 1 i]
  refine Finset.prod_congr rfl fun j hj => ?_
  have hlt : xs.length - 1 - j < xs.length := by
    have := Finset.mem_range.mp hj
    omega
  rw [Nat.testBit_two_pow_sub_succ hi, decide_eq_true hlt, Bool.true_and]
  cases i.testBit (xs.length - 1 - j) with
  | false => simp
  | true => simp

/-! ## Doubling -/

/-- A list that starts with one entry and is doubled by every factor, by the last one first. -/
def doubled (factors : List Scalar) (seed : Scalar) : List Scalar :=
  factors.foldr (fun factor weights => weights ++ weights.map (· * factor)) [seed]

/-- The weights of folding grow by doubling from the product of all inverses. -/
theorem foldWeights_eq_doubled (xs : List Scalar) :
    foldWeights xs = doubled (xs.map fun x => x * x) (Scalar.product (xs.map Scalar.inverse)) := by
  rw [doubled, List.foldr_map]
  rfl

variable (factors : List Scalar) (seed : Scalar)

/-- A factor continues the list by its multiple. -/
theorem doubled_cons (factor : Scalar) :
    doubled (factor :: factors) seed =
      doubled factors seed ++ (doubled factors seed).map (· * factor) := rfl

/-- Each factor doubles the length. -/
@[simp] theorem length_doubled : (doubled factors seed).length = 2 ^ factors.length := by
  induction factors with
  | nil => rfl
  | cons factor factors ih =>
    rw [doubled_cons, List.length_append, List.length_map, ih, List.length_cons, Nat.pow_succ,
      mul_two]

/-- Without its leading digit a place is an earlier one. -/
theorem exists_getElem?_doubled {i : ℕ} (hpos : i ≠ 0) (hi : i < 2 ^ factors.length) :
    ∃ weight factor, (doubled factors seed)[i - 2 ^ i.log2]? = some weight ∧
      factors[factors.length - 1 - i.log2]? = some factor ∧
      (doubled factors seed)[i]? = some (weight * factor) := by
  induction factors with
  | nil => exact absurd (Nat.lt_one_iff.mp hi) hpos
  | cons factor factors ih =>
    rw [doubled_cons, List.length_cons]
    by_cases hhalf : i < 2 ^ factors.length
    · obtain ⟨weight, factor', hweight, hfactor, hproduct⟩ := ih hhalf
      have hlog : i.log2 < factors.length := (Nat.log2_lt hpos).mpr hhalf
      refine ⟨weight, factor', ?_, ?_, ?_⟩
      · have hlower : i - 2 ^ i.log2 < 2 ^ factors.length :=
          Nat.lt_of_le_of_lt (Nat.sub_le ..) hhalf
        rwa [List.getElem?_append_left (by rwa [length_doubled])]
      · rwa [show factors.length + 1 - 1 - i.log2 = factors.length - 1 - i.log2 + 1 by omega,
          List.getElem?_cons_succ]
      · rwa [List.getElem?_append_left (by rwa [length_doubled])]
    · have hlog : i.log2 = factors.length :=
        (Nat.log2_eq_iff hpos).mpr ⟨Nat.le_of_not_lt hhalf, hi⟩
      have hlower : i - 2 ^ factors.length < (doubled factors seed).length := by
        rw [length_doubled]
        rw [List.length_cons, Nat.pow_succ] at hi
        omega
      refine ⟨(doubled factors seed)[i - 2 ^ factors.length], factor, ?_, ?_, ?_⟩
      · rw [hlog, List.getElem?_append_left hlower, List.getElem?_eq_getElem hlower]
      · rw [hlog, Nat.add_sub_cancel, Nat.sub_self, List.getElem?_cons_zero]
      · rw [List.getElem?_append_right (by rw [length_doubled]; exact Nat.le_of_not_lt hhalf),
          length_doubled, List.getElem?_map, List.getElem?_eq_getElem hlower]
        rfl

/-- The first place has the seed. -/
theorem take_one_doubled : (doubled factors seed).take 1 = [seed] := by
  induction factors with
  | nil => rfl
  | cons factor factors ih =>
    rw [doubled_cons,
      List.take_append_of_le_length (by rw [length_doubled]; exact Nat.two_pow_pos _), ih]

end ConfidentialPayment.InnerProduct
