import Mathlib.LinearAlgebra.Dual.Lemmas
import Mathlib.LinearAlgebra.FreeModule.Basic
import Mathlib.LinearAlgebra.Lagrange
import Mathlib.LinearAlgebra.Vandermonde
import ConfidentialPayment.Proofs.Scalar.Vector

/-!
# ConfidentialPayment.Proofs.Suite.Interpolation

Scalars and points that are known from their combinations.

1. Over independent points a combination has one list of weights (`weigh_injective`).
2. A point-valued polynomial that vanishes at as many scalars as it has coefficients is zero
   (`eq_zero_of_sum_pow_smul`, and `eq_zero_of_weigh_powers` for lists of coefficients).

This is how an extractor compares the answers to several challenges.
-/

namespace ConfidentialPayment

variable {M : Type} [AddCommGroup M] [Module Scalar M]

/-- Over independent points a combination has one list of weights. -/
theorem weigh_injective {ms : List M} (h : LinearIndependent Scalar ms.get) {xs ys : List Scalar}
    (hxs : xs.length = ms.length) (hys : ys.length = ms.length) (heq : weigh xs ms = weigh ys ms) :
    xs = ys := by
  have hofFn {xs : List Scalar} (hxs : xs.length = ms.length) :
      (List.ofFn fun i : Fin ms.length => xs.getD i 0) = xs := by
    apply List.ext_getElem <;> simp [hxs]
  have hsums : ∑ i : Fin ms.length, xs.getD i 0 • ms.get i =
      ∑ i : Fin ms.length, ys.getD i 0 • ms.get i := by
    rw [← weigh_ofFn, ← weigh_ofFn, List.ofFn_get, hofFn hxs, hofFn hys]
    exact heq
  rw [← hofFn hxs, ← hofFn hys]
  exact congrArg List.ofFn (funext (Fintype.linearIndependent_iffₛ.mp h _ _ hsums))

/-- Linear maps go into the summands. -/
theorem map_weigh {N : Type} [AddCommGroup N] [Module Scalar N] (f : M →ₗ[Scalar] N)
    (xs : List Scalar) (ms : List M) : f (weigh xs ms) = weigh xs (ms.map f) := by
  induction xs generalizing ms with
  | nil => simp
  | cons x xs ih => cases ms <;> simp [ih]

/-- A polynomial with points as coefficients is zero if it vanishes at enough scalars. -/
theorem eq_zero_of_sum_pow_smul {n : ℕ} {x : Fin n → Scalar} (hx : Function.Injective x)
    {p : Fin n → M} (h : ∀ m, ∑ k : Fin n, x m ^ (k : ℕ) • p k = 0) (k : Fin n) : p k = 0 := by
  rw [← Module.forall_dual_apply_eq_zero_iff Scalar]
  intro φ
  have hφ (m : Fin n) : ∑ k : Fin n, x m ^ (k : ℕ) * φ (p k) = 0 := by
    simpa using congrArg φ (h m)
  exact congrFun (Matrix.eq_zero_of_forall_index_sum_pow_mul_eq_zero hx hφ) k

/-- A polynomial with a list of points as coefficients is zero if it vanishes at all scalars but
zero, of which there are enough. -/
theorem eq_zero_of_weigh_powers {ps : List M} (hlen : ps.length < Scalar.order)
    (h : ∀ z : Scalar, z ≠ 0 → weigh (z.powers ps.length) ps = 0) : ∀ p ∈ ps, p = 0 := by
  let x (m : Fin ps.length) : Scalar := ((m : ℕ) + 1 : ℕ)
  have hlt (m : Fin ps.length) : (m : ℕ) + 1 < Scalar.order := by omega
  have hx : Function.Injective x := fun m m' hm =>
    Fin.ext (Nat.succ.inj ((Scalar.natCast_inj (hlt m) (hlt m')).mp hm))
  have hne (m : Fin ps.length) : x m ≠ 0 := by
    intro hm
    have hzero := (Scalar.natCast_inj (hlt m) Scalar.order_pos).mp (hm.trans Nat.cast_zero.symm)
    exact Nat.succ_ne_zero _ hzero
  have hsum (m : Fin ps.length) : ∑ k : Fin ps.length, x m ^ (k : ℕ) • ps.get k = 0 := by
    have hm := h (x m) (hne m)
    rwa [Scalar.powers_eq_ofFn, ← List.ofFn_get ps, List.length_ofFn, weigh_ofFn] at hm
  intro p hp
  obtain ⟨k, rfl⟩ := List.get_of_mem hp
  exact eq_zero_of_sum_pow_smul hx hsum k

/-- The slope of a line is the quotient of differences. -/
theorem eq_slope_smul {x x' : Scalar} (hne : x ≠ x') {b a v v' : M} (h : x • b + a = v)
    (h' : x' • b + a = v') : b = (x - x')⁻¹ • (v - v') := by
  have hdiff : v - v' = (x - x') • b := by
    rw [← h, ← h']
    module
  rw [hdiff, inv_smul_smul₀ (sub_ne_zero.mpr hne)]

/-- The coefficient of the highest power in the polynomial that takes given values. -/
noncomputable def leadingInterpolated {n : ℕ} (x values : Fin (n + 1) → Scalar) : Scalar :=
  (Lagrange.interpolate Finset.univ x values).coeff n

/-- If a polynomial with points as coefficients takes multiples of one point as values, then its
leading coefficient is the multiple that their factors interpolate. -/
theorem eq_leadingInterpolated_smul {n : ℕ} {x : Fin (n + 1) → Scalar}
    (hx : Function.Injective x) {p : Fin n → M} {top g : M} {values : Fin (n + 1) → Scalar}
    (h : ∀ m, ∑ k : Fin n, x m ^ (k : ℕ) • p k + x m ^ n • top = values m • g) :
    top = leadingInterpolated x values • g := by
  let q := Lagrange.interpolate Finset.univ x values
  have hdegree : q.natDegree < n + 1 := by
    have hle : q.natDegree ≤ (Finset.univ : Finset (Fin (n + 1))).card - 1 :=
      Polynomial.natDegree_le_of_degree_le (Lagrange.degree_interpolate_le values hx.injOn)
    rw [Finset.card_fin] at hle
    exact Nat.lt_succ_of_le hle
  have heval (m : Fin (n + 1)) :
      values m = ∑ k : Fin n, q.coeff k * x m ^ (k : ℕ) + q.coeff n * x m ^ n := by
    rw [← Lagrange.eval_interpolate_at_node values hx.injOn (Finset.mem_univ m),
      Polynomial.eval_eq_sum_range' hdegree, Finset.sum_range_succ, Finset.sum_range]
  let difference : Fin (n + 1) → M :=
    Fin.lastCases (top - q.coeff n • g) fun k => p k - q.coeff k • g
  have hvanish (m : Fin (n + 1)) : ∑ k : Fin (n + 1), x m ^ (k : ℕ) • difference k = 0 := by
    rw [Fin.sum_univ_castSucc, ← sub_eq_zero_of_eq (h m), heval m, add_smul, Finset.sum_smul]
    simp only [difference, Fin.lastCases_castSucc, Fin.lastCases_last, Fin.val_castSucc,
      Fin.val_last, smul_sub, Finset.sum_sub_distrib, smul_smul, mul_comm]
    abel
  have hlast := eq_zero_of_sum_pow_smul hx hvanish (Fin.last n)
  simp only [difference, Fin.lastCases_last] at hlast
  exact sub_eq_zero.mp hlast

end ConfidentialPayment
