import ConfidentialPayment.Equation
import ConfidentialPayment.Pedersen
import ConfidentialPayment.RandomSource
import ConfidentialPayment.Wire

/-!
# ConfidentialPayment.SerialNumber.Revealed

Proofs that a serial number belongs to a public key and a published derivator.

Only the private key is secret here. One nonce is committed to twice, over the private key
generator and over the serial number.
-/

namespace ConfidentialPayment.SerialNumber.Revealed

/-- A serial number with the public key and the derivator that it should come from. -/
structure Statement (P : Type) where
  serialNumber : P
  publicKey : P
  derivator : Scalar

/-- What a prover sends before the challenge: the nonce times the private key generator and times
the serial number. -/
structure Commitment (P : Type) where
  key : P
  serialNumber : P

/-- A proof: the commitment, and the private key times the challenge plus the nonce. -/
structure Proof (P : Type) where
  commitment : Commitment P
  response : Scalar

variable {P : Type} [Suite P]

instance : DecidableEq (Commitment P) := fun a b =>
  decidable_of_iff (a.key = b.key ∧ a.serialNumber = b.serialNumber)
    ⟨fun h => by cases a; cases b; simp_all, fun h => h ▸ ⟨rfl, rfl⟩⟩

instance : DecidableEq (Proof P) := fun a b =>
  decidable_of_iff (a.commitment = b.commitment ∧ a.response = b.response)
    ⟨fun h => by cases a; cases b; simp_all, fun h => h ▸ ⟨rfl, rfl⟩⟩

/-! ## The challenge -/

/-- The transcript of a statement and a commitment, up to the challenge. -/
def transcript (s : Statement P) (c : Commitment P) : Transcript :=
  Transcript.start "payment_proofs_serial_number_no_privacy"
    |>.absorbPoint "sn" s.serialNumber
    |>.absorbPoint "pk" s.publicKey
    |>.absorbScalar "snd" s.derivator
    |>.absorbPoint "t_seed" c.key
    |>.absorbPoint "t_output" c.serialNumber

/-- The challenge of a statement and a commitment. -/
def challenge (s : Statement P) (c : Commitment P) : Scalar :=
  ((transcript s c).challenge P "x").1

/-! ## Making proofs -/

/-- The commitment for a given nonce. -/
def commit (gens : Generators P) (s : Statement P) (nonce : Scalar) : Commitment P where
  key := nonce • gens.privateKey
  serialNumber := nonce • s.serialNumber

/-- The response of a private key to a challenge. -/
def respond (key nonce x : Scalar) : Scalar := key * x + nonce

/-- The proof for a given nonce. -/
def proveWith (gens : Generators P) (s : Statement P) (key nonce : Scalar) : Proof P :=
  let c := commit gens s nonce
  ⟨c, respond key nonce (challenge s c)⟩

/-- Makes a proof with the private key. -/
def prove (gens : Generators P) (s : Statement P) (key : Scalar) : Draw (Proof P) :=
  proveWith gens s key <$> RandomSource.scalar

/-! ## Verification -/

/-- What a verifier checks when the challenge is `x`, in order. -/
def equations (gens : Generators P) (s : Statement P) (x : Scalar) (c : Commitment P)
    (response : Scalar) : List (Equation P) :=
  [{ statement := 1
     left := response • gens.privateKey
     right := x • s.publicKey + c.key },
   { statement := 2
     left := (response + s.derivator * x) • s.serialNumber
     right := x • gens.privateKey + c.serialNumber }]

/-- Checks a proof of a statement. -/
def Proof.verify (gens : Generators P) (s : Statement P) (proof : Proof P) : Except Error Unit :=
  let x := challenge s proof.commitment
  Equation.checkAll .revealedSerial (equations gens s x proof.commitment proof.response)

/-! ## Encoding -/

/-- The length of an encoded proof. -/
def byteLength : Nat := 2 * pointLength + Scalar.byteLength

/-- The encoding of a proof; the statement is not part of it. -/
def Proof.toBytes (proof : Proof P) : Bytes :=
  Writer.points [proof.commitment.key, proof.commitment.serialNumber] ++ proof.response.toBytes

/-- Reads a proof from the front of a string. -/
def Proof.reader : Reader (Proof P) := do
  let key ← Reader.point "t_seed"
  let serialNumber ← Reader.point "t_output"
  let response ← Reader.scalar "z_seed"
  return ⟨⟨key, serialNumber⟩, response⟩

/-- Reads a proof that fills a string. -/
def Proof.ofBytes (bs : Bytes) : Except Error (Proof P) :=
  Proof.reader.decodeFixed byteLength bs

end ConfidentialPayment.SerialNumber.Revealed
