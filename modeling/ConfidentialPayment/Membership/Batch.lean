import ConfidentialPayment.Membership
import ConfidentialPayment.RandomSource

/-!
# ConfidentialPayment.Membership.Batch

Checking many membership proofs with one sum.

Every equation of every proof has a random weight. `Weights.combination` is the weighted sum of
the residuals of one proof, written with one term for each point that the proof brings and the
merged coefficients of the two generators, which all proofs share.
-/

namespace ConfidentialPayment.Membership

/-- The weights of one proof: for each digit those of its two equations, then that of the ring. -/
structure Weights where
  digits : Vector (Scalar × Scalar) digitCount
  ring : Scalar

/-- Draws the weights of the equations of a digit. -/
def drawDigitWeights : Draw (Scalar × Scalar) := do
  let value ← RandomSource.scalar
  let bit ← RandomSource.scalar
  return (value, bit)

/-- Draws the weights of one proof. -/
def drawWeights : Draw Weights := do
  let digits ← RandomSource.vectorOf drawDigitWeights digitCount
  let ring ← RandomSource.scalar
  return ⟨digits, ring⟩

/-- A sum over the points of a proof and the two generators that its equations use. -/
structure Combination (P : Type) where
  terms : List (Scalar × P)
  onPrivateKey : Scalar
  onBlinding : Scalar

variable {P : Type} [Suite P]

/-- The sum of several combinations. -/
def Combination.total (gens : Generators P) (parts : List (Combination P)) : P :=
  Suite.weightedSum <|
    parts.flatMap Combination.terms ++
      [(Scalar.sum (parts.map Combination.onPrivateKey), gens.privateKey),
       (Scalar.sum (parts.map Combination.onBlinding), gens.blinding)]

/-- The weighted sum of the residuals of one proof when its challenge is `x`. -/
def Weights.combination (w : Weights) (ring : List P) (x : Scalar) (proof : Proof P) :
    Combination P :=
  let c := proof.commitment
  let r := proof.response
  let digitTerms := (List.finRange digitCount).flatMap fun j : Fin digitCount =>
    let (value, bit) := w.digits[j]
    [(value * x + bit * (x - r.values.getD j 0), c.bits.getD j 0), (value, c.masks.getD j 0),
     (bit, c.products.getD j 0)]
  let ringTerms := ((ringWeights r.values x).map (w.ring * ·)).zip ring ++
    ((x.powers digitCount).map fun power => -(w.ring * power)).zip c.coefficients
  { terms := digitTerms ++ ringTerms
    onPrivateKey := -Scalar.sum ((List.finRange digitCount).map fun j : Fin digitCount =>
      w.digits[j].1 * r.values.getD j 0)
    onBlinding := -(Scalar.sum ((List.finRange digitCount).map fun j : Fin digitCount =>
      w.digits[j].1 * r.maskOpenings.getD j 0 + w.digits[j].2 * r.productOpenings.getD j 0) +
      w.ring * r.ringOpening) }

/-- The combination of one proof at the challenge of its ring. -/
def Weights.combinationOf (w : Weights) (proof : Proof P) (ring : List P) : Combination P :=
  w.combination ring (challenge ring proof.commitment) proof

/-- Refuses a ring or a proof of the wrong shape, and then draws the weights of the proof. -/
def drawCombination (proof : Proof P) (ring : List P) : DrawExcept (Combination P) := do
  DrawExcept.ofExcept (checkShape ring proof)
  let w ← drawWeights
  return w.combinationOf proof ring

/-- Refuses lists of different lengths. -/
def checkBatchLength (proofs : List (Proof P)) (rings : List (List P)) : Except Error Unit :=
  if proofs.length = rings.length then .ok ()
  else .error (.lengthMismatch proofs.length rings.length)

/-- Checks every proof against its ring. The first one of the wrong shape is reported after the
weights of the proofs before it are drawn; a failure of the sum is reported as statement 0. -/
def verifyBatch (gens : Generators P) (proofs : List (Proof P)) (rings : List (List P)) :
    DrawExcept Unit := do
  DrawExcept.ofExcept (checkBatchLength proofs rings)
  let parts ← (proofs.zip rings).mapM fun (proof, ring) => drawCombination proof ring
  if Combination.total gens parts = 0 then pure ()
  else DrawExcept.fail (.rejected .membership 0)

end ConfidentialPayment.Membership
