import ConfidentialPayment.PowerOfTwo
import ConfidentialPayment.Proofs.Scalar.Vector
import ConfidentialPayment.RangeProof.Witness

/-!
# ConfidentialPayment.Proofs.RangeProof.Identity

The identity between polynomials that a range proof opens at one point.

1. `dot_vectors`: the inner product of the two vectors at zero is `delta` plus the weighted values,
   plus terms that vanish if every digit is a bit. The identity holds for all vectors, so provers
   and extractors share it.
2. `dot_digits_scale`: the digits of values, weighted by the powers of two and the weights of the
   values, are the weighted values.
-/

namespace ConfidentialPayment

namespace Scalar

@[simp] theorem dot_nil (ys : List Scalar) : dot [] ys = 0 := rfl

/-- The first entries contribute their product. -/
@[simp] theorem dot_cons (x y : Scalar) (xs ys : List Scalar) :
    dot (x :: xs) (y :: ys) = x * y + dot xs ys := weigh_cons x xs y ys

/-- The inner product of two vectors is the sum of those of their parts. -/
theorem dot_append {xs xs' ys ys' : List Scalar} (h : xs.length = ys.length) :
    dot (xs ++ xs') (ys ++ ys') = dot xs ys + dot xs' ys' := weigh_append h

end Scalar

namespace RangeProof

open Scalar

/-! ## The constant term -/

/-- The relation between the digits `as` and their complements `bs` that `y` weighs: it vanishes
for bits and their complements. -/
def bitDefects (z : Scalar) (as bs : List Scalar) : List Scalar :=
  List.zipWith (fun a b => a * b + z * (a - b - 1)) as bs

/-- The inner product at zero. -/
theorem dot_vectors (z : Scalar) {n : ℕ} {as bs ys ws : List Scalar} (has : as.length = n)
    (hbs : bs.length = n) (hys : ys.length = n) (hws : ws.length = n) :
    dot (as.map (· - z)) (addEach (mulEach ys (bs.map (· + z))) ws) =
      (z - z * z) * ys.sum - z * ws.sum + dot as ws + dot ys (bitDefects z as bs) := by
  induction n generalizing as bs ys ws with
  | zero =>
    obtain rfl := List.eq_nil_of_length_eq_zero has
    obtain rfl := List.eq_nil_of_length_eq_zero hys
    obtain rfl := List.eq_nil_of_length_eq_zero hws
    simp
  | succ n ih =>
    obtain ⟨a, as, rfl⟩ := List.exists_cons_of_length_eq_add_one has
    obtain ⟨b, bs, rfl⟩ := List.exists_cons_of_length_eq_add_one hbs
    obtain ⟨y, ys, rfl⟩ := List.exists_cons_of_length_eq_add_one hys
    obtain ⟨w, ws, rfl⟩ := List.exists_cons_of_length_eq_add_one hws
    have htail := ih (Nat.succ.inj has) (Nat.succ.inj hbs) (Nat.succ.inj hys) (Nat.succ.inj hws)
    simp only [addEach, mulEach, bitDefects] at htail
    simp only [List.map_cons, addEach, mulEach, bitDefects, List.zipWith_cons_cons, dot_cons,
      List.sum_cons, htail]
    ring

/-- Bits and their complements have no defects. -/
theorem dot_bitDefects_complements (z : Scalar) (ys : List Scalar) {as : List Scalar}
    (h : ∀ a ∈ as, a * (a - 1) = 0) : dot ys (bitDefects z as (as.map (· - 1))) = 0 := by
  induction as generalizing ys with
  | nil => simp [dot_comm ys, bitDefects]
  | cons a as ih =>
    cases ys with
    | nil => rfl
    | cons y ys =>
      obtain ⟨ha, has⟩ := List.forall_mem_cons.mp h
      have htail := ih ys has
      simp only [bitDefects] at htail
      simp only [bitDefects, List.map_cons, List.zipWith_cons_cons, dot_cons, htail]
      linear_combination y * ha

/-! ## Digits -/

@[simp] theorem length_digits (v : UInt64) : (digits v).length = bitCount := by simp [digits]

@[simp] theorem length_digitPowers : digitPowers.length = bitCount := length_powers ..

/-- The lowest digits of a number spell its remainder. -/
theorem sum_ofBit_testBit (n count : ℕ) :
    ((List.range count).map fun k => ofBit (n.testBit k) * (2 : Scalar) ^ k).sum =
      ((n % 2 ^ count : ℕ) : Scalar) := by
  induction count with
  | zero => simp [Nat.mod_one]
  | succ count ih =>
    have hbit : ofBit (n.testBit count) = ((n / 2 ^ count % 2 : ℕ) : Scalar) := by
      rw [← Nat.toNat_testBit]
      cases n.testBit count <;> simp [ofBit]
    rw [List.range_succ, List.map_append, List.sum_append, ih, Nat.mod_pow_succ,
      List.map_singleton, List.sum_singleton, hbit]
    push_cast
    rw [mul_comm]

/-- The digits of a value spell it. -/
theorem dot_digits (v : UInt64) : dot (digits v) digitPowers = ofUInt64 v := by
  have hlt : v.toNat % 2 ^ bitCount = v.toNat := Nat.mod_eq_of_lt v.toNat_lt
  rw [ofUInt64_eq_natCast, ← hlt, ← sum_ofBit_testBit, digits, digitPowers, powers_eq_map,
    dot_eq_weigh, weigh_map_map]
  rfl

/-! ## Weights -/

@[simp] theorem length_valueWeights (z : Scalar) (count : ℕ) :
    (valueWeights z count).length = count := length_geometric ..

/-- Digits of values over the weights of their digits. -/
theorem dot_digits_scale {ws : List Scalar} {vs : List UInt64} (h : ws.length = vs.length) :
    dot (vs.flatMap digits) (ws.flatMap fun weight => scale weight digitPowers) =
      dot ws (vs.map ofUInt64) := by
  induction vs generalizing ws with
  | nil =>
    obtain rfl := List.eq_nil_of_length_eq_zero h
    rfl
  | cons v vs ih =>
    obtain ⟨w, ws, rfl⟩ := List.exists_cons_of_length_eq_add_one h
    have hvalue : dot (digits v) (scale w digitPowers) = w * ofUInt64 v := by
      rw [dot_comm, dot_eq_weigh, scale, weigh_scale, ← dot_eq_weigh, dot_comm, dot_digits]
      rfl
    rw [List.flatMap_cons, List.flatMap_cons, dot_append (by simp), ih (Nat.succ.inj h), hvalue,
      List.map_cons, dot_cons]

theorem length_digitWeights (z : Scalar) (count : ℕ) :
    (digitWeights z count).length = bitCount * count := by
  simp [digitWeights, List.length_flatMap, mul_comm]

/-- The weights of all digits, as the constant of the identity has them. -/
theorem mul_sum_digitWeights (z : Scalar) (count : ℕ) :
    z * (digitWeights z count).sum =
      (z.geometric count (z * z * z)).sum * digitPowers.sum := by
  have hflat (ws : List Scalar) :
      (ws.flatMap fun weight => scale weight digitPowers).sum = ws.sum * digitPowers.sum := by
    induction ws with
    | nil => simp
    | cons w ws ih => simp only [List.flatMap_cons, List.sum_append, ih, sum_scale,
        List.sum_cons, add_mul]
  have hshift : z.geometric count (z * z * z) = scale z (valueWeights z count) := by
    rw [valueWeights, scale_geometric, mul_assoc]
  rw [digitWeights, hflat, hshift, sum_scale, mul_assoc]

/-- The constant of the identity, by the weights of all digits. -/
theorem delta_eq (ys : List Scalar) (z : Scalar) (count : ℕ) :
    delta ys z count = (z - z * z) * ys.sum - z * (digitWeights z count).sum := by
  rw [delta, mul_sum_digitWeights]
  rfl

end RangeProof

end ConfidentialPayment
