import ConfidentialPayment.Scalar

/-!
# ConfidentialPayment.Scalar.Vector

Lists of scalars as vectors: sums, powers, inner products, and the entry-wise operations of the
polynomial arguments. Entry-wise operations stop with the shorter list.
-/

namespace ConfidentialPayment.Scalar

/-- The sum of a list. -/
def sum (xs : List Scalar) : Scalar := xs.foldr (· + ·) 0

/-- The product of a list. -/
def product (xs : List Scalar) : Scalar := xs.foldr (· * ·) 1

/-- The geometric sequence `first, first * x, first * x ^ 2, …` of the given length. -/
def geometric (x : Scalar) : (count : Nat) → (first : Scalar) → List Scalar
  | 0, _ => []
  | count + 1, first => first :: geometric x count (first * x)

/-- The powers `x ^ 0, …, x ^ (count - 1)`. -/
def powers (x : Scalar) (count : Nat) : List Scalar := geometric x count 1

/-- Entry-wise sum. -/
def addEach (xs ys : List Scalar) : List Scalar := List.zipWith (· + ·) xs ys

/-- Entry-wise product. -/
def mulEach (xs ys : List Scalar) : List Scalar := List.zipWith (· * ·) xs ys

/-- Every entry times `c`. -/
def scale (c : Scalar) (xs : List Scalar) : List Scalar := xs.map (c * ·)

/-- The sum of the products of corresponding entries. -/
def dot (xs ys : List Scalar) : Scalar := sum (mulEach xs ys)

/-- The inner product of two vectors, which have to have the same length. -/
def innerProduct (xs ys : List Scalar) : Except Error Scalar :=
  if xs.length = ys.length then .ok (dot xs ys)
  else .error (.lengthMismatch xs.length ys.length)

@[simp] theorem length_geometric (x : Scalar) (count : Nat) (first : Scalar) :
    (geometric x count first).length = count := by
  induction count generalizing first with
  | zero => rfl
  | succ count ih => simp [geometric, ih]

@[simp] theorem length_powers (x : Scalar) (count : Nat) : (powers x count).length = count :=
  length_geometric x count 1

end ConfidentialPayment.Scalar
