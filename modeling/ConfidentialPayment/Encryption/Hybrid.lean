import ConfidentialPayment.Encryption.Elgamal
import ConfidentialPayment.Encryption.Symmetric
import ConfidentialPayment.Hash.Sha2

/-!
# ConfidentialPayment.Encryption.Hybrid

Encryption of byte strings to a public point: a random point is encrypted by ElGamal, and the
message by counter mode under the hash of that point.

A ciphertext may also be empty, which is how a coin without encrypted details is written.
-/

namespace ConfidentialPayment.Hybrid

/-- A ciphertext: the encrypted key point, absent from the empty ciphertext, and the encrypted
message. -/
structure Ciphertext (P : Type) where
  encryptedKey : Option (Elgamal.Ciphertext P)
  encryptedMessage : Bytes

variable {P : Type}

/-- The empty ciphertext. -/
def Ciphertext.empty : Ciphertext P := ⟨none, []⟩

/-- Whether both parts are missing. -/
def Ciphertext.isEmpty (c : Ciphertext P) : Bool :=
  c.encryptedKey.isNone && c.encryptedMessage.isEmpty

variable [Suite P]

instance : DecidableEq (Ciphertext P) := fun a b =>
  decidable_of_iff
    (a.encryptedKey = b.encryptedKey ∧ a.encryptedMessage = b.encryptedMessage)
    ⟨fun h => by cases a; cases b; simp_all, fun h => h ▸ ⟨rfl, rfl⟩⟩

/-- What one encryption draws: the key point, the start of the counter, and the exponent that the
key point is encrypted with. -/
structure Randomness (P : Type) where
  keyPoint : P
  start : Bytes
  exponent : Scalar

/-- The domain of the hash that makes a symmetric key of a point. -/
def keyDomain : Bytes := Bytes.ofText "payment_proofs_hybrid_symmetric_key"

/-- The block cipher under the symmetric key of a point. -/
def cipherOf (keyPoint : P) : Cipher.Block → Cipher.Block :=
  Cipher.aes256 (Hash.Sha256.hash (keyDomain ++ Suite.encode keyPoint))

/-- The ciphertext of a message with given randomness. -/
def encryptWith (gens : Generators P) (publicKey : P) (message : Bytes) (random : Randomness P) :
    Except Error (Ciphertext P) := do
  let encryptedMessage ← Symmetric.encryptWith (cipherOf random.keyPoint) random.start message
  let encryptedKey := Elgamal.encryptWith gens publicKey random.keyPoint random.exponent
  return ⟨some encryptedKey, encryptedMessage⟩

/-- Draws the randomness for a message. An empty message is refused when only the key point has been
drawn. -/
def drawRandomness (message : Bytes) : DrawExcept (Randomness P) := do
  let keyPoint ← (RandomSource.point : Draw P)
  if message.isEmpty then DrawExcept.fail .emptyInput
  let start ← RandomSource.take Symmetric.startLength
  let exponent ← RandomSource.scalar
  return ⟨keyPoint, start, exponent⟩

/-- Encrypts a message. -/
def encrypt (gens : Generators P) (publicKey : P) (message : Bytes) :
    DrawExcept (Ciphertext P) := do
  let random ← drawRandomness message
  DrawExcept.ofExcept (encryptWith gens publicKey message random)

/-- The message of a ciphertext with both parts. -/
def decrypt (privateKey : Scalar) (c : Ciphertext P) : Except Error Bytes :=
  match c.encryptedKey with
  | none => .error .ciphertextEmpty
  | some encryptedKey =>
    if c.encryptedMessage.isEmpty then .error .ciphertextEmpty
    else Symmetric.decrypt (cipherOf (Elgamal.decrypt privateKey encryptedKey)) c.encryptedMessage

namespace Ciphertext

/-- The encrypted key, if there is one, followed by the encrypted message. -/
def toBytes (c : Ciphertext P) : Bytes :=
  (c.encryptedKey.map Elgamal.Ciphertext.toBytes).getD [] ++ c.encryptedMessage

/-- Reads a ciphertext of any length; the empty string is the empty ciphertext. -/
def ofBytes (bs : Bytes) : Except Error (Ciphertext P) :=
  let n := Elgamal.Ciphertext.byteLength
  if bs.isEmpty then .ok .empty
  else if bs.length < n then .error (.ciphertextTooShort bs.length)
  else do
    let encryptedKey ←
      (Elgamal.Ciphertext.ofBytes (bs.take n)).mapError (.malformed "symmetric key ciphertext")
    return ⟨some encryptedKey, bs.drop n⟩

end Ciphertext

end ConfidentialPayment.Hybrid
