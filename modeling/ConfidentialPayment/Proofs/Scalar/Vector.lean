import ConfidentialPayment.Proofs.Suite.VectorSpace
import ConfidentialPayment.Scalar.Vector

/-!
# ConfidentialPayment.Proofs.Scalar.Vector

Lists of scalars as vectors: sums and products are those of the field, a geometric sequence is
known by its entries, and the powers of an inverse are the inverses of the powers.
-/

namespace ConfidentialPayment.Scalar

@[simp] theorem sum_eq_sum (xs : List Scalar) : Scalar.sum xs = xs.sum := rfl

@[simp] theorem product_eq_prod (xs : List Scalar) : Scalar.product xs = xs.prod := rfl

/-! ## Geometric sequences -/

/-- The entries of a geometric list are the multiples of the first one by the powers. -/
@[simp] theorem getElem_geometric (x : Scalar) {count : ℕ} (first : Scalar) (i : ℕ)
    (h : i < (geometric x count first).length) :
    (geometric x count first)[i] = first * x ^ i := by
  induction count generalizing first i with
  | zero => exact absurd h (Nat.not_lt_zero i)
  | succ count ih =>
    cases i with
    | zero => simp [geometric]
    | succ i =>
      simp only [geometric, List.getElem_cons_succ]
      rw [ih]
      ring

/-- The entry at a place is the power with this exponent. -/
@[simp] theorem getElem_powers (x : Scalar) {count : ℕ} (i : ℕ)
    (h : i < (powers x count).length) : (powers x count)[i] = x ^ i := by
  exact (getElem_geometric x 1 i h).trans (one_mul _)

theorem powers_eq_map (x : Scalar) (count : ℕ) :
    powers x count = (List.range count).map (x ^ ·) := by
  apply List.ext_getElem <;> simp

theorem powers_eq_ofFn (x : Scalar) (count : ℕ) :
    powers x count = List.ofFn fun k : Fin count => x ^ (k : ℕ) := by
  apply List.ext_getElem <;> simp

/-- A geometric list begins with the shorter ones. -/
theorem take_geometric (x : Scalar) {m count : ℕ} (first : Scalar) (h : m ≤ count) :
    (geometric x count first).take m = geometric x m first := by
  apply List.ext_getElem
  · simp [h]
  · intro i hi hi'
    simp

/-- A multiple of a geometric sequence begins with the multiple of its first entry. -/
theorem scale_geometric (c x : Scalar) (count : ℕ) (first : Scalar) :
    scale c (geometric x count first) = geometric x count (c * first) := by
  apply List.ext_getElem
  · simp [scale]
  · simp [scale, mul_assoc]

/-! ## Vectors by their entries -/

/-- A vector lists its entries. -/
theorem toList_eq_ofFn {α : Type} {n : ℕ} (v : Vector α n) : v.toList = List.ofFn v.get := by
  apply List.ext_getElem
  · simp
  · intro i h h'
    simp [Vector.get]

@[simp] theorem get_ofFn {α : Type} {n : ℕ} (f : Fin n → α) (i : Fin n) :
    (Vector.ofFn f).get i = f i := Vector.getElem_ofFn i.isLt

/-- Vectors are equal if their entries are. -/
theorem vector_ext {α : Type} {n : ℕ} {v v' : Vector α n} (h : ∀ i, v.get i = v'.get i) :
    v = v' := Vector.ext fun i hi => h ⟨i, hi⟩

/-- The vector of the entries of a list, filled up with zeros. -/
def vectorOfList (n : ℕ) (xs : List Scalar) : Vector Scalar n := .ofFn fun i => xs.getD i 0

/-- A list of the right length becomes a vector without loss. -/
theorem toList_vectorOfList {n : ℕ} {xs : List Scalar} (h : xs.length = n) :
    (vectorOfList n xs).toList = xs := by
  apply List.ext_getElem
  · simp [h]
  · intro i hi hi'
    simp [vectorOfList, hi']

theorem mulEach_comm (xs ys : List Scalar) : mulEach xs ys = mulEach ys xs := by
  rw [mulEach, List.zipWith_comm]
  simp only [mul_comm, mulEach]

theorem dot_comm (xs ys : List Scalar) : dot xs ys = dot ys xs := by
  rw [dot, dot, mulEach_comm]

/-- Scaling a list scales its sum. -/
theorem sum_scale (c : Scalar) (xs : List Scalar) : (scale c xs).sum = c * xs.sum := by
  rw [scale, List.sum_map_mul_left, List.map_id']

@[simp] theorem length_scale (c : Scalar) (xs : List Scalar) :
    (scale c xs).length = xs.length := List.length_map _

@[simp] theorem length_addEach (xs ys : List Scalar) :
    (addEach xs ys).length = min xs.length ys.length := List.length_zipWith

@[simp] theorem length_mulEach (xs ys : List Scalar) :
    (mulEach xs ys).length = min xs.length ys.length := List.length_zipWith

end ConfidentialPayment.Scalar
