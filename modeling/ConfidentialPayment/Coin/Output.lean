import ConfidentialPayment.Coin.Encoding
import ConfidentialPayment.Encryption.Hybrid

/-!
# ConfidentialPayment.Coin.Output

Coins that a payment creates.

An output is a coin together with a ciphertext. Encrypting an output moves the blinding and the
value of its coin into the ciphertext, for the holder of the transmission key to recover;
recovering them checks that they open the commitment.
-/

namespace ConfidentialPayment

/-- Whom a payment goes to and how much it is: the owner of the new coin, the key that its details
are encrypted to, the amount, and the info. -/
structure Payee (P : Type) where
  publicKey : P
  transmissionKey : P
  amount : UInt64
  message : Bytes

/-- A coin that a payment creates and, once it is encrypted, its details. -/
structure OutputCoin (P : Type) where
  coin : Coin P
  ciphertext : Hybrid.Ciphertext P

namespace OutputCoin

variable {P : Type} [Suite P]

instance : DecidableEq (OutputCoin P) := fun a b =>
  decidable_of_iff (a.coin = b.coin ∧ a.ciphertext = b.ciphertext)
    ⟨fun h => by cases a; cases b; simp_all, fun h => h ▸ ⟨rfl, rfl⟩⟩

/-- An output without ciphertext. -/
def plain (coin : Coin P) : OutputCoin P := ⟨coin, .empty⟩

/-- The uncommitted coin for a payee with a given derivator. -/
def coinFor (payee : Payee P) (derivator : Scalar) : Except Error (Coin P) :=
  (Coin.uncommitted payee.publicKey derivator 0 payee.amount).withInfo payee.message

/-- The output for a payee with a fresh derivator, which stays drawn if the message is too long. -/
def forPayee (payee : Payee P) : DrawExcept (OutputCoin P) := do
  let derivator ← RandomSource.scalar
  plain <$> DrawExcept.ofExcept (coinFor payee derivator)

/-! ## Details -/

/-- The length of encrypted details. -/
def detailsLength : Nat := Scalar.byteLength + Coin.valueLength

/-- The details of a coin: its blinding and its value. -/
def details (coin : Coin P) : Bytes := coin.blinding.toBytes ++ Writer.uint64 coin.value

/-- The output with its details encrypted with given randomness. -/
def encryptWith (gens : Generators P) (transmissionKey : P) (output : OutputCoin P)
    (random : Hybrid.Randomness P) : Except Error (OutputCoin P) := do
  let ciphertext ← Hybrid.encryptWith gens transmissionKey (details output.coin) random
  return ⟨{ output.coin with blinding := 0, value := 0 }, ciphertext⟩

/-- Encrypts the details of an output to a transmission key and clears them. -/
def encrypt (gens : Generators P) (transmissionKey : P) (output : OutputCoin P) :
    DrawExcept (OutputCoin P) := do
  let random ← Hybrid.drawRandomness (details output.coin)
  DrawExcept.ofExcept (encryptWith gens transmissionKey output random)

/-- Reads details. -/
def readDetails : Reader (Scalar × UInt64) := do
  let blinding ← Reader.scalar "randomness"
  let value ← Reader.uint64 "value"
  return (blinding, value)

/-- The coin with the details that the receiving key recovers, which have to open its commitment. -/
def decrypt (gens : Generators P) (receivingKey : Scalar) (output : OutputCoin P) :
    Except Error (Coin P) := do
  let bs ← Hybrid.decrypt receivingKey output.ciphertext
  if bs.length ≠ detailsLength then .error .decryptionFailed
  else
    match readDetails.decode bs with
    | .error _ => .error .decryptionFailed
    | .ok (blinding, value) =>
      let coin := { output.coin with blinding, value }
      if coin.isCommitted gens then .ok coin else .error .decryptionFailed

/-! ## Encoding -/

/-- The ciphertext behind its length in two bytes, then the coin. -/
def toBytes (output : OutputCoin P) : Bytes :=
  let ciphertext := output.ciphertext.toBytes
  Writer.nat16 ciphertext.length ++ ciphertext ++ output.coin.toBytes

/-- Reads an output from the front of a string. -/
def reader : Reader (OutputCoin P) := do
  let length ← Reader.nat16 "ciphertext"
  let bs ← Reader.bytes "ciphertext" length
  let ciphertext ← Reader.within "ciphertext" (Hybrid.Ciphertext.ofBytes bs)
  let coin ← Coin.reader
  return ⟨coin, ciphertext⟩

/-- Reads an output that fills a string. -/
def ofBytes (bs : Bytes) : Except Error (OutputCoin P) := reader.decode bs

end OutputCoin

end ConfidentialPayment
