import ConfidentialPayment.Pedersen
import ConfidentialPayment.RandomSource

/-!
# ConfidentialPayment.Encryption.Elgamal

ElGamal encryption of points over the private key generator: the public key of `x` is `x • G`, and
the ciphertext of `m` with exponent `r` is `(r • G, m + r • publicKey)`.
-/

namespace ConfidentialPayment.Elgamal

/-- A ciphertext: the commitment to the exponent and the masked message. -/
structure Ciphertext (P : Type) where
  exponentCommitment : P
  masked : P

variable {P : Type} [Suite P]

instance : DecidableEq (Ciphertext P) := fun a b =>
  decidable_of_iff (a.exponentCommitment = b.exponentCommitment ∧ a.masked = b.masked)
    ⟨fun h => by cases a; cases b; simp_all, fun h => h ▸ ⟨rfl, rfl⟩⟩

/-- The public key of a private key. -/
def publicKey (gens : Generators P) (privateKey : Scalar) : P := privateKey • gens.privateKey

/-- The ciphertext of a message with a given exponent. -/
def encryptWith (gens : Generators P) (publicKey message : P) (exponent : Scalar) : Ciphertext P :=
  ⟨exponent • gens.privateKey, message + exponent • publicKey⟩

/-- Encrypts a message. -/
def encrypt (gens : Generators P) (publicKey message : P) : Draw (Ciphertext P) :=
  encryptWith gens publicKey message <$> RandomSource.scalar

/-- The message of a ciphertext. -/
def decrypt (privateKey : Scalar) (c : Ciphertext P) : P :=
  c.masked - privateKey • c.exponentCommitment

namespace Ciphertext

/-- The length of an encoded ciphertext. -/
def byteLength : Nat := 2 * pointLength

/-- Both points, one after the other. -/
def toBytes (c : Ciphertext P) : Bytes :=
  Suite.encode c.exponentCommitment ++ Suite.encode c.masked

/-- Reads a ciphertext. -/
def ofBytes (bs : Bytes) : Except Error (Ciphertext P) :=
  if bs.length = byteLength then do
    let exponentCommitment ← (readPoint (bs.take pointLength)).mapError (.malformed "c1")
    let masked ← (readPoint (bs.drop pointLength)).mapError (.malformed "c2")
    return ⟨exponentCommitment, masked⟩
  else
    .error (.lengthMismatch byteLength bs.length)

end Ciphertext

end ConfidentialPayment.Elgamal
