import ConfidentialPayment.InnerProduct
import ConfidentialPayment.Machine

/-!
# ConfidentialPayment.Machine.InnerProduct

Verification of inner product arguments on the machine.

The weight of a base is found from the weight of an earlier one: the number of that base lacks the
leading digit, so its weight has the inverse of one challenge where this one has the challenge
itself. All challenges are inverted at the cost of one inversion.
-/

namespace ConfidentialPayment

/-- The inverse of the product of a list and of what comes before it, then the inverse of what comes
before it, and the inverses of the list. -/
def Scalar.invertFrom (before : Scalar) : List Scalar → Scalar × Scalar × List Scalar
  | [] =>
    let inverse := before.inverse
    (inverse, inverse, [])
  | x :: xs =>
    let (total, inverse, inverses) := invertFrom (before * x) xs
    (total, inverse * x, inverse * before :: inverses)

/-- The inverse of the product of a list and the inverses of its entries, none of which may be
zero. -/
def Scalar.invertAll (xs : List Scalar) : Scalar × List Scalar :=
  let (total, _, inverses) := invertFrom 1 xs
  (total, inverses)

namespace Machine

variable {P : Type} [Suite P]

/-- What a verifier computes from the challenges: their squares, the squares of their inverses, and
the weights of the bases. -/
structure VerificationScalars where
  squares : List Scalar
  inverseSquares : List Scalar
  weights : List Scalar

/-- Appends the weight of base `i` to the weights of the bases before it, where there are `count`
challenges. The most significant digit belongs to the first challenge. -/
def nextWeight (count : Nat) (squares weights : List Scalar) (i : Nat) :
    Machine (List Scalar) := do
  let digit ← sub (32 - 1) (leadingZeros 32 i)
  let power ← shiftLeft 1 digit
  let last ← sub count 1
  let square ← get squares (← sub last digit)
  let weight ← get weights (← sub i power)
  return weights ++ [weight * square]

/-- The scalars of a verifier for `count` challenges, where there are `n` bases on either side. -/
def scalarsFor (count n : Nat) (challenges : List Scalar) : Machine VerificationScalars := do
  let (product, inverses) := Scalar.invertAll challenges
  let squares := challenges.map fun x => x * x
  let inverseSquares := inverses.map fun y => y * y
  let weights ← (List.range' 1 (n - 1)).foldlM (nextWeight count squares) [product]
  return ⟨squares, inverseSquares, weights⟩

/-- The scalars of a verifier of a proof about vectors of length `n`, and the transcript after the
challenges. The shift comes behind the bound on the rounds. -/
def verificationScalars (t : Transcript) (n : Nat) (proof : InnerProduct.Proof P) :
    Machine (VerificationScalars × Transcript) := do
  let count := proof.rounds.length
  if ¬ proof.isWellFormed then refuse (.rejected .innerProduct 0)
  if n ≠ (← shiftLeft 1 count) then refuse (.rejected .innerProduct 0)
  let (challenges, t) := InnerProduct.drawRounds
    (InnerProduct.openArgument t n proof.commitment) proof.rounds
  return (← scalarsFor count n challenges, t)

/-- The scalars of the sum that a verifier compares with the commitment. -/
def VerificationScalars.coefficients (s : VerificationScalars) (factors : List Scalar)
    (proof : InnerProduct.Proof P) : List Scalar :=
  proof.a * proof.b ::
    (s.weights.map (proof.a * ·) ++
      List.zipWith (fun weight factor => proof.b * weight * factor) s.weights.reverse factors ++
      s.squares.map (-·) ++ s.inverseSquares.map (-·))

/-- The points of that sum. -/
def argumentPoints (u : P) (g h : List P) (proof : InnerProduct.Proof P) : List P :=
  u :: (g ++ h ++ proof.rounds.map InnerProduct.Round.left ++
    proof.rounds.map InnerProduct.Round.right)

/-- The sum of points times scalars, of which there have to be as many. -/
def weightedSum (scalars : List Scalar) (points : List P) : Machine P :=
  if scalars.length = points.length then .ok (Suite.weightedSum (scalars.zip points))
  else fault .lengths

/-- Checks a proof over the bases `g` and `factors · h`; the result is the transcript after it. -/
def verifyArgument (t : Transcript) (u : P) (g h : List P) (factors : List Scalar)
    (proof : InnerProduct.Proof P) : Machine Transcript := do
  let n := g.length
  if h.length ≠ n ∨ factors.length ≠ n then
    refuse (.lengthMismatch n (min h.length factors.length))
  let (s, t) ← verificationScalars t n proof
  let expected ← weightedSum (s.coefficients factors proof) (argumentPoints u g h proof)
  if expected = proof.commitment then return t else refuse (.rejected .innerProduct 1)

end Machine

end ConfidentialPayment
