import ConfidentialPayment.Equation
import ConfidentialPayment.Pedersen
import ConfidentialPayment.Scalar.Vector
import ConfidentialPayment.Wire

/-!
# ConfidentialPayment.Membership

Proofs that one commitment of a ring opens to zero, without saying which one.

The ring has eight members, so an index has three binary digits. The prover commits to the digits
and to the coefficients below the third power of the polynomials
`p i = ∏ j, (digit j of i is set ? f j : X - f j)`, of which only that of the secret index reaches
the third power. The verifier evaluates every `p i` at the challenge and compares the weighted sum
of the ring with the committed coefficients.

1. A `Proof` is a `Commitment`, sent before the challenge, and a `Response`, sent after it.
2. `equations` lists what a verifier checks, with the challenge as a free parameter.
3. `Proof.verify` checks the equations at the challenge of the ring and the commitment.
4. In the wire form stand four points and three scalars for each digit, part by part, and one more
   scalar, so its length `byteLength` is fixed.
-/

namespace ConfidentialPayment.Membership

/-- The number of binary digits of an index into a ring. -/
def digitCount : Nat := 3

/-- The number of members of a ring. -/
def ringSize : Nat := 2 ^ digitCount

/-- The binary digits of an index, least significant first. -/
def digits (index : Nat) : List Bool := (List.range digitCount).map index.testBit

/-! ## Proofs -/

/-- What a prover sends before the challenge: for every digit commitments to the digit, to its mask
and to their product, and for every power of the challenge below the third one the blinded
coefficient of the weighted ring. -/
structure Commitment (P : Type) where
  bits : List P
  masks : List P
  products : List P
  coefficients : List P

/-- What a prover answers to the challenge: for every digit its masked value and the openings of
two relations, and the opening of the weighted ring. -/
structure Response where
  values : List Scalar
  maskOpenings : List Scalar
  productOpenings : List Scalar
  ringOpening : Scalar
deriving DecidableEq

/-- A membership proof. -/
structure Proof (P : Type) where
  commitment : Commitment P
  response : Response

/-- Whether every part has one entry for each digit. -/
def Proof.isWellFormed {P : Type} (proof : Proof P) : Bool :=
  proof.commitment.bits.length = digitCount && proof.commitment.masks.length = digitCount &&
    proof.commitment.products.length = digitCount &&
    proof.commitment.coefficients.length = digitCount &&
    proof.response.values.length = digitCount &&
    proof.response.maskOpenings.length = digitCount &&
    proof.response.productOpenings.length = digitCount

variable {P : Type} [Suite P]

instance : DecidableEq (Commitment P) := fun a b =>
  decidable_of_iff
    (a.bits = b.bits ∧ a.masks = b.masks ∧ a.products = b.products ∧
      a.coefficients = b.coefficients)
    ⟨fun h => by cases a; cases b; simp_all, fun h => h ▸ ⟨rfl, rfl, rfl, rfl⟩⟩

instance : DecidableEq (Proof P) := fun a b =>
  decidable_of_iff (a.commitment = b.commitment ∧ a.response = b.response)
    ⟨fun h => by cases a; cases b; simp_all, fun h => h ▸ ⟨rfl, rfl⟩⟩

/-! ## The challenge -/

/-- The transcript of a ring and a commitment, up to the challenge. -/
def transcript (ring : List P) (c : Commitment P) : Transcript :=
  ((((Transcript.start "payment_proofs_one_out_of_many").absorbPoints "C" ring).absorbPoints
    "cl" c.bits).absorbPoints "ca" c.masks).absorbPoints "cb" c.products |>.absorbPoints
    "cd" c.coefficients

/-- The challenge of a ring and a commitment. -/
def challenge (ring : List P) (c : Commitment P) : Scalar :=
  ((transcript ring c).challenge P "x").1

/-! ## Equations -/

/-- The value of the polynomial `p i` at the challenge. -/
def ringWeight (values : List Scalar) (x : Scalar) (i : Nat) : Scalar :=
  Scalar.product <| List.zipWith (fun isSet f => if isSet then f else x - f) (digits i) values

/-- The values of all polynomials at the challenge. -/
def ringWeights (values : List Scalar) (x : Scalar) : List Scalar :=
  (List.range ringSize).map (ringWeight values x)

/-- Statement 1 for a digit: its masked value opens the commitments to the digit and the mask. -/
def valueEquation (gens : Generators P) (x : Scalar) (c : Commitment P) (r : Response)
    (j : Nat) : Equation P where
  statement := 1
  left := x • c.bits.getD j 0 + c.masks.getD j 0
  right := gens.commitTo .privateKey (r.values.getD j 0) (r.maskOpenings.getD j 0)

/-- Statement 2 for a digit: it is its own square, because its masked value times its complement
has no leading term. -/
def bitEquation (gens : Generators P) (x : Scalar) (c : Commitment P) (r : Response)
    (j : Nat) : Equation P where
  statement := 2
  left := (x - r.values.getD j 0) • c.bits.getD j 0 + c.products.getD j 0
  right := r.productOpenings.getD j 0 • gens.blinding

/-- Statement 3: the ring weighted by the polynomials, less the committed lower coefficients, opens
to zero. -/
def ringEquation (gens : Generators P) (ring : List P) (x : Scalar) (c : Commitment P)
    (r : Response) : Equation P where
  statement := 3
  left := Suite.weightedSum <|
    (ringWeights r.values x).zip ring ++
      ((x.powers digitCount).map fun power => -power).zip c.coefficients
  right := r.ringOpening • gens.blinding

/-- What a verifier checks when the challenge is `x`, in order. -/
def equations (gens : Generators P) (ring : List P) (x : Scalar) (c : Commitment P)
    (r : Response) : List (Equation P) :=
  ((List.range digitCount).flatMap fun j => [valueEquation gens x c r j, bitEquation gens x c r j])
    ++ [ringEquation gens ring x c r]

/-! ## Verification -/

/-- Refuses a ring of the wrong size. -/
def checkRing (ring : List P) : Except Error Unit :=
  if ring.length = ringSize then .ok () else .error (.ringSizeMismatch ring.length ringSize)

/-- Refuses a ring of the wrong size and then a proof of the wrong shape. -/
def checkShape (ring : List P) (proof : Proof P) : Except Error Unit := do
  checkRing ring
  if proof.isWellFormed then .ok () else .error (.rejected .membership 0)

/-- Checks that a member of the ring opens to zero. -/
def Proof.verify (gens : Generators P) (ring : List P) (proof : Proof P) : Except Error Unit := do
  checkShape ring proof
  let x := challenge ring proof.commitment
  Equation.checkAll .membership (equations gens ring x proof.commitment proof.response)

/-! ## Wire form -/

/-- The length of an encoded proof. -/
def byteLength : Nat := 4 * digitCount * pointLength + (3 * digitCount + 1) * Scalar.byteLength

/-- The encoding of a proof. -/
def Proof.toBytes (proof : Proof P) : Bytes :=
  let c := proof.commitment
  let r := proof.response
  Writer.points c.bits ++ Writer.points c.masks ++ Writer.points c.products ++
    Writer.points c.coefficients ++ Writer.scalars r.values ++ Writer.scalars r.maskOpenings ++
    Writer.scalars r.productOpenings ++ r.ringOpening.toBytes

/-- Reads a proof from the front of a string. -/
def Proof.reader : Reader (Proof P) := do
  let bits ← Reader.points "cl" digitCount
  let masks ← Reader.points "ca" digitCount
  let products ← Reader.points "cb" digitCount
  let coefficients ← Reader.points "cd" digitCount
  let values ← Reader.scalars "f" digitCount
  let maskOpenings ← Reader.scalars "za" digitCount
  let productOpenings ← Reader.scalars "zb" digitCount
  let ringOpening ← Reader.scalar "zd"
  return ⟨⟨bits, masks, products, coefficients⟩,
    ⟨values, maskOpenings, productOpenings, ringOpening⟩⟩

/-- Reads a proof that fills a string. -/
def Proof.ofBytes (bs : Bytes) : Except Error (Proof P) :=
  Proof.reader.decodeFixed byteLength bs

end ConfidentialPayment.Membership
