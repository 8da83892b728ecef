import ConfidentialPayment.Cipher.Aes256
import ConfidentialPayment.RandomSource

/-!
# ConfidentialPayment.Encryption.Symmetric

Symmetric encryption by counter mode. The block cipher is a parameter.

1. In counter mode the message is added to the enciphered blocks of the numbers `start`,
   `start + 1`, … which count modulo `2 ^ 128`. Applying it twice with the same start gives the
   message back, so it both enciphers and deciphers.
2. A ciphertext has the start of the counter in front: the ciphertext of `m` is the 16 bytes of the
   start followed by `m` under the key stream, sixteen bytes longer than `m`.
-/

namespace ConfidentialPayment

/-! ## Counter mode -/

namespace Cipher

/-- The length of a block. -/
def blockLength : Nat := 16

/-- The block of a number modulo `2 ^ 128`, most significant byte first. -/
def counterBlock (n : Nat) : Block :=
  ⟨(Bytes.ofNatBE blockLength n).toArray, by simp [blockLength]⟩

/-- The pieces of a message, each added to its block of the key stream. -/
def counterModePieces (cipher : Block → Block) : (counter : Nat) → List Bytes → Bytes
  | _, [] => []
  | counter, piece :: rest =>
    Bytes.xor piece (cipher (counterBlock counter)).toList ++
      counterModePieces cipher (counter + 1) rest

/-- The message added to the key stream that starts at a counter. -/
def counterMode (cipher : Block → Block) (start : Nat) (message : Bytes) : Bytes :=
  counterModePieces cipher start (Bytes.chunks blockLength message)

end Cipher

/-! ## Ciphertexts -/

namespace Symmetric

/-- The length of the encoded start of the counter. -/
def startLength : Nat := Cipher.blockLength

/-- The key stream applied to a message, the start of the counter read from 16 bytes. -/
def applyKeystream (cipher : Cipher.Block → Cipher.Block) (start message : Bytes) : Bytes :=
  Cipher.counterMode cipher (Bytes.toNatBE start) message

/-- The ciphertext of a message that is not empty, from a given start of the counter. -/
def encryptWith (cipher : Cipher.Block → Cipher.Block) (start message : Bytes) :
    Except Error Bytes :=
  if message.isEmpty then .error .emptyInput
  else .ok (start ++ applyKeystream cipher start message)

/-- Encrypts a message. An empty one is refused before anything is drawn. -/
def encrypt (cipher : Cipher.Block → Cipher.Block) (message : Bytes) : DrawExcept Bytes := do
  if message.isEmpty then DrawExcept.fail .emptyInput
  let start ← RandomSource.take startLength
  DrawExcept.ofExcept (encryptWith cipher start message)

/-- The message of a ciphertext. -/
def decrypt (cipher : Cipher.Block → Cipher.Block) (ciphertext : Bytes) : Except Error Bytes :=
  if ciphertext.isEmpty then .error .emptyInput
  else if ciphertext.length ≤ startLength then .error (.ciphertextTooShort ciphertext.length)
  else .ok (applyKeystream cipher (ciphertext.take startLength) (ciphertext.drop startLength))

end Symmetric

end ConfidentialPayment
