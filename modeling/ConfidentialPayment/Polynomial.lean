import ConfidentialPayment.Scalar

/-!
# ConfidentialPayment.Polynomial

Polynomials over the scalar field, held as natural coefficients.

A product accumulates natural numbers and is reduced once at its end, so a chain of products costs
one reduction per coefficient and factor. `coefficient p k` is the coefficient of `X ^ k` as a
scalar, and it is zero past the degree.
-/

namespace ConfidentialPayment

/-- A polynomial by its coefficients, the constant one first. -/
structure Polynomial where
  coefficients : List Nat
deriving DecidableEq, Repr

namespace Polynomial

/-- The constant one. -/
def one : Polynomial := ⟨[1]⟩

/-- The polynomial `slope * X + constant`. -/
def linear (slope constant : Scalar) : Polynomial := ⟨[constant.val, slope.val]⟩

/-- Entry-wise sum, as long as the longer list. -/
def addCoefficients : List Nat → List Nat → List Nat
  | [], bs => bs
  | as, [] => as
  | a :: as, b :: bs => (a + b) :: addCoefficients as bs

/-- The coefficients of a product, not reduced. -/
def convolve : List Nat → List Nat → List Nat
  | [], _ => []
  | a :: as, bs => addCoefficients (bs.map (a * ·)) (0 :: convolve as bs)

/-- The product, reduced. -/
def mul (p q : Polynomial) : Polynomial :=
  ⟨(convolve p.coefficients q.coefficients).map (· % Scalar.order)⟩

instance : One Polynomial := ⟨one⟩
instance : Mul Polynomial := ⟨mul⟩

/-- The product of `slope * X + constant` over a list of pairs `(slope, constant)`. -/
def ofFactors (factors : List (Scalar × Scalar)) : Polynomial :=
  factors.foldl (fun p factor => p * linear factor.1 factor.2) 1

/-- The coefficient of `X ^ k`. -/
def coefficient (p : Polynomial) (k : Nat) : Scalar := .ofNat (p.coefficients.getD k 0)

end Polynomial

end ConfidentialPayment
