import ConfidentialPayment.Equation
import ConfidentialPayment.Pedersen
import ConfidentialPayment.RandomSource
import ConfidentialPayment.Wire

/-!
# ConfidentialPayment.SerialNumber.Hidden

Proofs that a serial number belongs to a committed private key and a committed derivator.

The statement is a serial number with blinded commitments to the key and the derivator. The prover
commits to nonces for all four secrets, and the sum of the nonces of key and derivator times the
serial number ties the two commitments to it.
-/

namespace ConfidentialPayment.SerialNumber.Hidden

/-- A serial number and the commitments that it should come from. -/
structure Statement (P : Type) where
  serialNumber : P
  keyCommitment : P
  derivatorCommitment : P

/-- The openings of the commitments of a statement. -/
structure Witness where
  key : Scalar
  keyBlinding : Scalar
  derivator : Scalar
  derivatorBlinding : Scalar
deriving DecidableEq

/-- What a proof draws: a nonce for each secret. -/
structure Randomness where
  key : Scalar
  derivator : Scalar
  keyBlinding : Scalar
  derivatorBlinding : Scalar
deriving DecidableEq

/-- What a prover sends before the challenge: commitments to the nonces. -/
structure Commitment (P : Type) where
  key : P
  derivator : P
  serialNumber : P

/-- What a prover answers to the challenge: every secret times the challenge plus its nonce. -/
structure Response where
  key : Scalar
  keyBlinding : Scalar
  derivator : Scalar
  derivatorBlinding : Scalar
deriving DecidableEq

/-- A proof. -/
structure Proof (P : Type) where
  commitment : Commitment P
  response : Response

variable {P : Type} [Suite P]

instance : DecidableEq (Commitment P) := fun a b =>
  decidable_of_iff
    (a.key = b.key ∧ a.derivator = b.derivator ∧ a.serialNumber = b.serialNumber)
    ⟨fun h => by cases a; cases b; simp_all, fun h => h ▸ ⟨rfl, rfl, rfl⟩⟩

instance : DecidableEq (Proof P) := fun a b =>
  decidable_of_iff (a.commitment = b.commitment ∧ a.response = b.response)
    ⟨fun h => by cases a; cases b; simp_all, fun h => h ▸ ⟨rfl, rfl⟩⟩

/-! ## The challenge -/

/-- The transcript of a statement and a commitment, up to the challenge. -/
def transcript (s : Statement P) (c : Commitment P) : Transcript :=
  Transcript.start "payment_proofs_serial_number_privacy"
    |>.absorbPoint "sn" s.serialNumber
    |>.absorbPoint "com_sk" s.keyCommitment
    |>.absorbPoint "com_snd" s.derivatorCommitment
    |>.absorbPoint "t_sk" c.key
    |>.absorbPoint "t_input" c.derivator
    |>.absorbPoint "t_sn" c.serialNumber

/-- The challenge of a statement and a commitment. -/
def challenge (s : Statement P) (c : Commitment P) : Scalar :=
  ((transcript s c).challenge P "x").1

/-! ## Making proofs -/

/-- Draws the randomness of a proof. -/
def drawRandomness : Draw Randomness := do
  let key ← RandomSource.scalar
  let derivator ← RandomSource.scalar
  let keyBlinding ← RandomSource.scalar
  let derivatorBlinding ← RandomSource.scalar
  return ⟨key, derivator, keyBlinding, derivatorBlinding⟩

/-- The commitment for given nonces. -/
def commit (gens : Generators P) (s : Statement P) (e : Randomness) : Commitment P where
  key := gens.commitTo .privateKey e.key e.keyBlinding
  derivator := gens.commitTo .derivator e.derivator e.derivatorBlinding
  serialNumber := (e.key + e.derivator) • s.serialNumber

/-- The response to a challenge. -/
def Witness.respond (w : Witness) (e : Randomness) (x : Scalar) : Response where
  key := w.key * x + e.key
  keyBlinding := w.keyBlinding * x + e.keyBlinding
  derivator := w.derivator * x + e.derivator
  derivatorBlinding := w.derivatorBlinding * x + e.derivatorBlinding

/-- The proof for given nonces. -/
def proveWith (gens : Generators P) (s : Statement P) (w : Witness) (e : Randomness) : Proof P :=
  let c := commit gens s e
  ⟨c, w.respond e (challenge s c)⟩

/-- Makes a proof. -/
def prove (gens : Generators P) (s : Statement P) (w : Witness) : Draw (Proof P) :=
  proveWith gens s w <$> drawRandomness

/-! ## Verification -/

/-- What a verifier checks when the challenge is `x`, in order. -/
def equations (gens : Generators P) (s : Statement P) (x : Scalar) (c : Commitment P)
    (r : Response) : List (Equation P) :=
  [{ statement := 1
     left := x • s.keyCommitment + c.key
     right := gens.commitTo .privateKey r.key r.keyBlinding },
   { statement := 2
     left := x • s.derivatorCommitment + c.derivator
     right := gens.commitTo .derivator r.derivator r.derivatorBlinding },
   { statement := 3
     left := (r.key + r.derivator) • s.serialNumber
     right := x • gens.privateKey + c.serialNumber }]

/-- Checks a proof of a statement. -/
def Proof.verify (gens : Generators P) (s : Statement P) (proof : Proof P) : Except Error Unit :=
  let x := challenge s proof.commitment
  Equation.checkAll .hiddenSerial (equations gens s x proof.commitment proof.response)

/-! ## Encoding -/

/-- The length of an encoded proof. -/
def byteLength : Nat := 3 * pointLength + 4 * Scalar.byteLength

/-- The encoding of a proof; the statement is not part of it. -/
def Proof.toBytes (proof : Proof P) : Bytes :=
  let c := proof.commitment
  let r := proof.response
  Writer.points [c.key, c.derivator, c.serialNumber] ++
    Writer.scalars [r.key, r.keyBlinding, r.derivator, r.derivatorBlinding]

/-- Reads a proof from the front of a string. -/
def Proof.reader : Reader (Proof P) := do
  let commitKey ← Reader.point "t_sk"
  let commitDerivator ← Reader.point "t_input"
  let commitSerialNumber ← Reader.point "t_sn"
  let key ← Reader.scalar "z_sk"
  let keyBlinding ← Reader.scalar "z_rsk"
  let derivator ← Reader.scalar "z_input"
  let derivatorBlinding ← Reader.scalar "z_rinput"
  return ⟨⟨commitKey, commitDerivator, commitSerialNumber⟩,
    ⟨key, keyBlinding, derivator, derivatorBlinding⟩⟩

/-- Reads a proof that fills a string. -/
def Proof.ofBytes (bs : Bytes) : Except Error (Proof P) :=
  Proof.reader.decodeFixed byteLength bs

end ConfidentialPayment.SerialNumber.Hidden
