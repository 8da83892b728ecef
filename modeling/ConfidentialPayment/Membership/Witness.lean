import ConfidentialPayment.Membership
import ConfidentialPayment.Polynomial
import ConfidentialPayment.RandomSource

/-!
# ConfidentialPayment.Membership.Witness

Making membership proofs.

A witness is a ring, the index of a member, and the blinding that opens this member to zero. The
prover draws fifteen scalars; the proof is a function of the witness and these draws.
-/

namespace ConfidentialPayment.Membership

/-- A ring with a secret index into it and the blinding of the member there. -/
structure Witness (P : Type) where
  ring : List P
  index : Nat
  blinding : Scalar
  length_ring : ring.length = ringSize
  index_lt : index < ringSize

/-- What a proof draws, five scalars for each digit: the blindings of the digit, its mask, the
blindings of the mask and of the product, and the blinding of a coefficient. -/
structure Randomness where
  bitBlindings : Vector Scalar digitCount
  masks : Vector Scalar digitCount
  maskBlindings : Vector Scalar digitCount
  productBlindings : Vector Scalar digitCount
  coefficientBlindings : Vector Scalar digitCount

/-- Draws the randomness of a proof. -/
def drawRandomness : Draw Randomness := do
  let bitBlindings ← RandomSource.scalarVector digitCount
  let masks ← RandomSource.scalarVector digitCount
  let maskBlindings ← RandomSource.scalarVector digitCount
  let productBlindings ← RandomSource.scalarVector digitCount
  let coefficientBlindings ← RandomSource.scalarVector digitCount
  return ⟨bitBlindings, masks, maskBlindings, productBlindings, coefficientBlindings⟩

namespace Witness

variable {P : Type}

/-- The witness for a ring, which has to have the right size, and an index inside it. -/
def make (ring : List P) (index : Nat) (blinding : Scalar) : Except Error (Witness P) :=
  if hring : ring.length = ringSize then
    if hindex : index < ringSize then .ok ⟨ring, index, blinding, hring, hindex⟩
    else .error (.ringIndexOutOfRange index ringSize)
  else
    .error (.ringSizeMismatch ring.length ringSize)

/-- A digit of the index as a scalar. -/
def bit (w : Witness P) (j : Nat) : Scalar := .ofBit (w.index.testBit j)

/-- The factor of digit `j` in the polynomial of a member, as slope and constant: the masked value
of the digit if the member has it set, and its complement if not. -/
def factor (w : Witness P) (d : Randomness) (i : Nat) (j : Fin digitCount) : Scalar × Scalar :=
  if i.testBit j then (w.bit j, d.masks.get j) else (1 - w.bit j, -d.masks.get j)

/-- The polynomial of a member. -/
def polynomial (w : Witness P) (d : Randomness) (i : Nat) : Polynomial :=
  .ofFactors ((List.finRange digitCount).map (w.factor d i))

variable [Suite P]

/-- The commitment for given draws. -/
def commit (gens : Generators P) (w : Witness P) (d : Randomness) : Commitment P :=
  let polynomials := (List.range ringSize).map (w.polynomial d)
  { bits := List.ofFn fun j : Fin digitCount =>
      gens.commitTo .privateKey (w.bit j) (d.bitBlindings.get j)
    masks := List.ofFn fun j : Fin digitCount =>
      gens.commitTo .privateKey (d.masks.get j) (d.maskBlindings.get j)
    products := List.ofFn fun j : Fin digitCount =>
      gens.commitTo .privateKey (w.bit j * d.masks.get j) (d.productBlindings.get j)
    coefficients := List.ofFn fun k : Fin digitCount =>
      Suite.weightedSum <|
        (polynomials.map fun p => p.coefficient k).zip w.ring ++
          [(d.coefficientBlindings.get k, gens.blinding)] }

/-- The masked value of a digit. -/
def maskedValue (w : Witness P) (d : Randomness) (x : Scalar) (j : Fin digitCount) : Scalar :=
  w.bit j * x + d.masks.get j

/-- The response to a challenge. -/
def respond (w : Witness P) (d : Randomness) (x : Scalar) : Response where
  values := List.ofFn (w.maskedValue d x)
  maskOpenings := List.ofFn fun j : Fin digitCount =>
    d.bitBlindings.get j * x + d.maskBlindings.get j
  productOpenings := List.ofFn fun j : Fin digitCount =>
    d.bitBlindings.get j * (x - w.maskedValue d x j) + d.productBlindings.get j
  ringOpening := w.blinding * x.power digitCount -
    Scalar.dot d.coefficientBlindings.toList (x.powers digitCount)

/-- The proof for given draws. -/
def proveWith (gens : Generators P) (w : Witness P) (d : Randomness) : Proof P :=
  let c := w.commit gens d
  ⟨c, w.respond d (challenge w.ring c)⟩

/-- Makes a proof. -/
def prove (gens : Generators P) (w : Witness P) : Draw (Proof P) :=
  w.proveWith gens <$> drawRandomness

end Witness

end ConfidentialPayment.Membership
