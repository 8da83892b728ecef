import ConfidentialPayment.GeneratorTable
import ConfidentialPayment.InnerProduct
import ConfidentialPayment.Pedersen

/-!
# ConfidentialPayment.RangeProof

Aggregated proofs that committed values are 64-bit numbers.

The values are written in binary, one bit for each base of the generator table, and their number
is padded to a power of two by zeros, whose commitments are neutral. The relations "every digit is
a bit" and "the digits make up the value" become one identity between polynomials in the
challenges `y` and `z`, of which the prover opens the value at `x`; the inner product that gives
this value is proved by halving.

1. A `Proof` has the commitments of the values and what the prover sends in each move.
2. `polynomialEquation`, `commitmentEquation` and the equation of the inner product argument are
   what a verifier checks, with the challenges as free parameters.
3. `Proof.verify` checks them at the challenges of the transcript, in this order.
-/

namespace ConfidentialPayment.RangeProof

/-- The number of binary digits of a value. -/
def bitCount : Nat := 64

/-- The most values that one proof covers. -/
def maxValues : Nat := 32

/-- The length of the vectors for a number of values. -/
def vectorLength (count : Nat) : Nat := bitCount * pad count

/-- The number of rounds that halve vectors of that length down to one entry. -/
def roundCount (count : Nat) : Nat := bitCount.log2 + ceilLog2 count

/-! ## Proofs -/

/-- The first move: blinded commitments to the digits and to their masks. -/
structure VectorCommitment (P : Type) where
  digits : P
  masks : P

/-- The second move: blinded commitments to the coefficients of the first and the second power. -/
structure PolynomialCommitment (P : Type) where
  linear : P
  quadratic : P

/-- The third move: the value of the polynomial at the challenge, the blinding that opens it, and
the blinding of the vectors. -/
structure Evaluation where
  value : Scalar
  blinding : Scalar
  vectorBlinding : Scalar
deriving DecidableEq

/-- A range proof. -/
structure Proof (P : Type) where
  commitments : List P
  vectors : VectorCommitment P
  polynomial : PolynomialCommitment P
  evaluation : Evaluation
  argument : InnerProduct.Proof P

/-- Whether the number of values is within bounds and the argument has as many rounds as they
need. -/
def Proof.isWellFormed {P : Type} (proof : Proof P) : Bool :=
  let count := proof.commitments.length
  0 < count && count ≤ maxValues && proof.argument.isWellFormed &&
    proof.argument.rounds.length = roundCount count

variable {P : Type} [Suite P]

instance : DecidableEq (VectorCommitment P) := fun a b =>
  decidable_of_iff (a.digits = b.digits ∧ a.masks = b.masks)
    ⟨fun h => by cases a; cases b; simp_all, fun h => h ▸ ⟨rfl, rfl⟩⟩

instance : DecidableEq (PolynomialCommitment P) := fun a b =>
  decidable_of_iff (a.linear = b.linear ∧ a.quadratic = b.quadratic)
    ⟨fun h => by cases a; cases b; simp_all, fun h => h ▸ ⟨rfl, rfl⟩⟩

instance : DecidableEq (Proof P) := fun a b =>
  decidable_of_iff
    (a.commitments = b.commitments ∧ a.vectors = b.vectors ∧ a.polynomial = b.polynomial ∧
      a.evaluation = b.evaluation ∧ a.argument = b.argument)
    ⟨fun h => by cases a; cases b; simp_all, fun h => h ▸ ⟨rfl, rfl, rfl, rfl, rfl⟩⟩

/-- A list filled up to the padding of its length. -/
def padded {α : Type} (filler : α) (xs : List α) : List α :=
  xs ++ List.replicate (pad xs.length - xs.length) filler

/-! ## Challenges -/

/-- The challenges of the four moves. -/
structure Challenges where
  y : Scalar
  z : Scalar
  x : Scalar
  w : Scalar

/-- The transcript of the padded commitments over a table. -/
def openTranscript (table : GeneratorTable P) (commitments : List P) : Transcript :=
  ((Transcript.start "payment_proofs_aggregated_range_proof").openRangeProof bitCount
    commitments.length).absorb "gens" table.digest |>.absorbPoints "V" commitments

/-- Absorbs the first move and draws `y` and `z`. -/
def drawVectors (t : Transcript) (v : VectorCommitment P) : Scalar × Scalar × Transcript :=
  let (y, t) := ((t.absorbPoint "A" v.digits).absorbPoint "S" v.masks).challenge P "y"
  let (z, t) := t.challenge P "z"
  (y, z, t)

/-- Absorbs the second move and draws `x`. -/
def drawPolynomial (t : Transcript) (p : PolynomialCommitment P) : Scalar × Transcript :=
  ((t.absorbPoint "T1" p.linear).absorbPoint "T2" p.quadratic).challenge P "x"

variable (P) in
/-- Absorbs the third move and draws `w`. -/
def drawEvaluation (t : Transcript) (e : Evaluation) : Scalar × Transcript :=
  (((t.absorbScalar "t_hat" e.value).absorbScalar "tau_x" e.blinding).absorbScalar
    "mu" e.vectorBlinding).challenge P "w"

/-- The challenges of a proof, and the transcript that its argument starts from. -/
def Proof.challenges (table : GeneratorTable P) (proof : Proof P) : Challenges × Transcript :=
  let (y, z, t) := drawVectors (openTranscript table (padded 0 proof.commitments)) proof.vectors
  let (x, t) := drawPolynomial t proof.polynomial
  let (w, t) := drawEvaluation P t proof.evaluation
  (⟨y, z, x, w⟩, t)

/-! ## The polynomial identity -/

/-- The powers of two that the digits of a value stand for. -/
def digitPowers : List Scalar := (Scalar.ofNat 2).powers bitCount

/-- The factors that value `j` is weighted by: `z ^ 2, z ^ 3, …`. -/
def valueWeights (z : Scalar) (count : Nat) : List Scalar := z.geometric count (z * z)

/-- The constant that the identity adds to the right vector: for digit `k` of value `j` the factor
of the value times `2 ^ k`. -/
def digitWeights (z : Scalar) (count : Nat) : List Scalar :=
  (valueWeights z count).flatMap fun weight => Scalar.scale weight digitPowers

/-- The part of the polynomial's constant term that does not depend on the values:
`(z - z ^ 2) * ⟨1, y ^ n⟩ - ∑ j, z ^ (j + 3) * ⟨1, 2 ^ k⟩`. -/
def delta (yPowers : List Scalar) (z : Scalar) (count : Nat) : Scalar :=
  (z - z * z) * Scalar.sum yPowers -
    Scalar.sum (z.geometric count (z * z * z)) * Scalar.sum digitPowers

/-- Statement 1: the committed polynomial has the opened value at `x`. -/
def polynomialEquation (gens : Generators P) (c : Challenges) (commitments : List P)
    (p : PolynomialCommitment P) (e : Evaluation) : Equation P :=
  let count := commitments.length
  let yPowers := c.y.powers (bitCount * count)
  { statement := 1
    left := Suite.weightedSum <|
      (valueWeights c.z count).zip commitments ++
        [(delta yPowers c.z count - e.value, gens.value), (-e.blinding, gens.blinding),
         (c.x, p.linear), (c.x * c.x, p.quadratic)]
    right := 0 }

/-- What the first move and the challenges make of the commitment of the inner product argument. -/
def argumentCommitment (gens : Generators P) (table : GeneratorTable P) (c : Challenges)
    (count : Nat) (v : VectorCommitment P) (e : Evaluation) : P :=
  let n := bitCount * count
  let onH := List.zipWith (fun weight power => c.z + weight * power) (digitWeights c.z count)
    (c.y.inverse.powers n)
  Suite.weightedSum <|
    [(1, v.digits), (c.x, v.masks), (-e.vectorBlinding, gens.blinding),
     (e.value * c.w, table.u)] ++
      (List.replicate n (-c.z)).zip (table.g.take n) ++ onH.zip (table.h.take n)

/-- Statement 2: the argument is about the vectors of the first move. -/
def commitmentEquation (gens : Generators P) (table : GeneratorTable P) (c : Challenges)
    (count : Nat) (proof : Proof P) : Equation P where
  statement := 2
  left := argumentCommitment gens table c count proof.vectors proof.evaluation
  right := proof.argument.commitment

/-! ## Verification -/

/-- Refuses a proof of the wrong shape, and then one that needs a larger table. -/
def checkShape (table : GeneratorTable P) (proof : Proof P) : Except Error Unit :=
  let count := proof.commitments.length
  if ¬ proof.isWellFormed then .error (.rejected .range 0)
  else if vectorLength count > table.capacity then
    .error (.tooManyOutputs count (table.capacity / bitCount))
  else .ok ()

/-- Checks the inner product argument of a proof, over the second list rescaled by the powers of
`y`. Any failure in it is statement 3. -/
def Proof.verifyArgument (table : GeneratorTable P) (c : Challenges) (t : Transcript)
    (proof : Proof P) : Except Error Unit :=
  let n := vectorLength proof.commitments.length
  match proof.argument.verify t (c.w • table.u) (table.g.take n) (table.h.take n)
    (c.y.inverse.powers n) with
  | .ok _ => .ok ()
  | .error _ => .error (.rejected .range 3)

/-- Checks that every committed value is a 64-bit number. -/
def Proof.verify (gens : Generators P) (table : GeneratorTable P) (proof : Proof P) :
    Except Error Unit := do
  checkShape table proof
  let commitments := padded 0 proof.commitments
  let (c, t) := proof.challenges table
  Equation.checkAll .range
    [polynomialEquation gens c commitments proof.polynomial proof.evaluation,
     commitmentEquation gens table c commitments.length proof]
  proof.verifyArgument table c t

end ConfidentialPayment.RangeProof
