import ConfidentialPayment.RandomSource
import ConfidentialPayment.RangeProof

/-!
# ConfidentialPayment.RangeProof.Witness

Making range proofs.

A witness is a list of positive values with the blindings of their commitments. The prover draws
two masks for each digit and four blindings; the proof is a function of the witness, the table and
these draws.
-/

namespace ConfidentialPayment.RangeProof

/-- Positive values with the blindings of their commitments. -/
structure Witness where
  values : List UInt64
  blindings : List Scalar
  length_eq : blindings.length = values.length
  values_ne_nil : values ≠ []
  length_le : values.length ≤ maxValues
  values_pos : ∀ v ∈ values, v ≠ 0

/-- What a proof over vectors of length `n` draws: the blinding of the digits, the masks of both
vectors, the blinding of the masks, and the blindings of the two coefficients. -/
structure Randomness (n : Nat) where
  digitBlinding : Scalar
  leftMasks : Vector Scalar n
  rightMasks : Vector Scalar n
  maskBlinding : Scalar
  linearBlinding : Scalar
  quadraticBlinding : Scalar

/-- Draws the randomness of a proof. -/
def drawRandomness (n : Nat) : Draw (Randomness n) := do
  let digitBlinding ← RandomSource.scalar
  let leftMasks ← RandomSource.scalarVector n
  let rightMasks ← RandomSource.scalarVector n
  let maskBlinding ← RandomSource.scalar
  let linearBlinding ← RandomSource.scalar
  let quadraticBlinding ← RandomSource.scalar
  return ⟨digitBlinding, leftMasks, rightMasks, maskBlinding, linearBlinding, quadraticBlinding⟩

/-- The binary digits of a value, least significant first. -/
def digits (value : UInt64) : List Scalar :=
  (List.range bitCount).map fun k => .ofBit (value.toNat.testBit k)

/-- Two vectors of linear polynomials by their constant and their leading coefficients. -/
structure LinearVectors where
  left : List Scalar
  leftSlope : List Scalar
  right : List Scalar
  rightSlope : List Scalar

namespace LinearVectors

/-- The coefficient of the first power in the inner product. -/
def linear (v : LinearVectors) : Scalar :=
  Scalar.dot v.left v.rightSlope + Scalar.dot v.leftSlope v.right

/-- The coefficient of the second power in the inner product. -/
def quadratic (v : LinearVectors) : Scalar := Scalar.dot v.leftSlope v.rightSlope

/-- The left vector at a point. -/
def leftAt (v : LinearVectors) (x : Scalar) : List Scalar :=
  Scalar.addEach v.left (Scalar.scale x v.leftSlope)

/-- The right vector at a point. -/
def rightAt (v : LinearVectors) (x : Scalar) : List Scalar :=
  Scalar.addEach v.right (Scalar.scale x v.rightSlope)

end LinearVectors

namespace Witness

/-- The witness for values with blindings. There have to be as many of both, at least one, not more
than one proof covers, and no zero among the values. -/
def make (values : List UInt64) (blindings : List Scalar) : Except Error Witness :=
  if hlen : blindings.length = values.length then
    if hne : values ≠ [] then
      if hle : values.length ≤ maxValues then
        if hpos : values.all (· != 0) then
          .ok ⟨values, blindings, hlen, hne, hle, by simpa using hpos⟩
        else .error .valueNotPositive
      else .error (.tooManyOutputs values.length maxValues)
    else .error .emptyInput
  else .error (.lengthMismatch values.length blindings.length)

/-- The length of the vectors of a witness. -/
def vectorLength (w : Witness) : Nat := RangeProof.vectorLength w.values.length

/-- The digits of all values and of the padding. -/
def digits (w : Witness) : List Scalar := (padded 0 w.values).flatMap RangeProof.digits

/-- The digits less one. -/
def complements (w : Witness) : List Scalar := w.digits.map (· - 1)

/-- The vectors whose inner product has the identity as its constant term. -/
def vectors (w : Witness) (d : Randomness w.vectorLength) (y z : Scalar) : LinearVectors where
  left := w.digits.map (· - z)
  leftSlope := d.leftMasks.toList
  right := Scalar.addEach
    (Scalar.mulEach (y.powers w.vectorLength) (w.complements.map (· + z)))
    (digitWeights z (pad w.values.length))
  rightSlope := Scalar.mulEach d.rightMasks.toList (y.powers w.vectorLength)

/-- What opens the polynomial at a point. -/
def evaluate (w : Witness) (d : Randomness w.vectorLength) (v : LinearVectors) (z x : Scalar) :
    Evaluation where
  value := Scalar.dot (v.leftAt x) (v.rightAt x)
  blinding := d.quadraticBlinding * x * x + d.linearBlinding * x +
    Scalar.dot (valueWeights z (pad w.values.length)) (padded 0 w.blindings)
  vectorBlinding := d.digitBlinding + d.maskBlinding * x

variable {P : Type} [Suite P]

/-- The commitments to the values and to the padding. -/
def commitments (gens : Generators P) (w : Witness) : List P :=
  List.zipWith (fun v blinding => gens.commitTo .value (.ofUInt64 v) blinding) (padded 0 w.values)
    (padded 0 w.blindings)

/-- The first move. -/
def commitVectors (gens : Generators P) (table : GeneratorTable P) (w : Witness)
    (d : Randomness w.vectorLength) : VectorCommitment P :=
  let commit (blinding : Scalar) (left right : List Scalar) : P :=
    Suite.weightedSum ((blinding, gens.blinding) :: (left.zip table.g ++ right.zip table.h))
  { digits := commit d.digitBlinding w.digits w.complements
    masks := commit d.maskBlinding d.leftMasks.toList d.rightMasks.toList }

/-- The second move. -/
def commitPolynomial (gens : Generators P) (w : Witness) (d : Randomness w.vectorLength)
    (v : LinearVectors) : PolynomialCommitment P where
  linear := gens.commitTo .value v.linear d.linearBlinding
  quadratic := gens.commitTo .value v.quadratic d.quadraticBlinding

/-- The proof for given draws. -/
def proveWith (gens : Generators P) (table : GeneratorTable P) (w : Witness)
    (d : Randomness w.vectorLength) : Except Error (Proof P) := do
  let n := w.vectorLength
  let commitments := w.commitments gens
  let vectorCommitment := w.commitVectors gens table d
  let (y, z, t) := drawVectors (openTranscript table commitments) vectorCommitment
  let v := w.vectors d y z
  let polynomialCommitment := w.commitPolynomial gens d v
  let (x, t) := drawPolynomial t polynomialCommitment
  let evaluation := w.evaluate d v z x
  let (c, t) := drawEvaluation P t evaluation
  let rescaled := List.zipWith (fun power base => power • base) (y.inverse.powers n)
    (table.h.take n)
  let (argument, _) ← InnerProduct.Proof.create t (c • table.u)
    ⟨table.g.take n, rescaled, v.leftAt x, v.rightAt x⟩
  return ⟨commitments.take w.values.length, vectorCommitment, polynomialCommitment, evaluation,
    argument⟩

/-- Refuses a table that is too small for a witness. -/
def checkCapacity (table : GeneratorTable P) (w : Witness) : Except Error Unit :=
  if w.vectorLength > table.capacity then
    .error (.tooManyOutputs w.values.length (table.capacity / bitCount))
  else .ok ()

/-- Makes a proof; a table that is too small is refused before anything is drawn. -/
def prove (gens : Generators P) (table : GeneratorTable P) (w : Witness) :
    DrawExcept (Proof P) := do
  DrawExcept.ofExcept (w.checkCapacity table)
  let d ← drawRandomness w.vectorLength
  DrawExcept.ofExcept (w.proveWith gens table d)

end Witness

end ConfidentialPayment.RangeProof
