import ConfidentialPayment.Machine.RangeProof
import ConfidentialPayment.Machine.Reader
import ConfidentialPayment.Payment.Encoding
import ConfidentialPayment.Signature

/-!
# ConfidentialPayment.Machine.Decoding

The decoders of the library on the machine.

Every decoder of the wire formats reads the same fields in the same order as its counterpart on
cursors without bounds. Counts and lengths that an encoding brings along are words, and so is all
that is computed from them.
-/

namespace ConfidentialPayment.Machine

open SliceReader

variable {P : Type} [Suite P]

/-! ## Proofs of fixed length -/

/-- Reads a membership proof. -/
def readMembership : SliceReader (Membership.Proof P) := do
  let bits ← points "cl" Membership.digitCount
  let masks ← points "ca" Membership.digitCount
  let products ← points "cb" Membership.digitCount
  let coefficients ← points "cd" Membership.digitCount
  let values ← scalars "f" Membership.digitCount
  let maskOpenings ← scalars "za" Membership.digitCount
  let productOpenings ← scalars "zb" Membership.digitCount
  let ringOpening ← scalar "zd"
  return ⟨⟨bits, masks, products, coefficients⟩,
    ⟨values, maskOpenings, productOpenings, ringOpening⟩⟩

/-- Decodes a membership proof. -/
def decodeMembership (bs : Bytes) : Machine (Membership.Proof P) :=
  decodeFixed Membership.byteLength readMembership bs

/-- Reads the proof of a hidden serial number. -/
def readHiddenSerial : SliceReader (SerialNumber.Hidden.Proof P) := do
  let commitKey ← point "t_sk"
  let commitDerivator ← point "t_input"
  let commitSerialNumber ← point "t_sn"
  let key ← scalar "z_sk"
  let keyBlinding ← scalar "z_rsk"
  let derivator ← scalar "z_input"
  let derivatorBlinding ← scalar "z_rinput"
  return ⟨⟨commitKey, commitDerivator, commitSerialNumber⟩,
    ⟨key, keyBlinding, derivator, derivatorBlinding⟩⟩

/-- Decodes the proof of a hidden serial number. -/
def decodeHiddenSerial (bs : Bytes) : Machine (SerialNumber.Hidden.Proof P) :=
  decodeFixed SerialNumber.Hidden.byteLength readHiddenSerial bs

/-- Reads the proof of a revealed serial number. -/
def readRevealedSerial : SliceReader (SerialNumber.Revealed.Proof P) := do
  let key ← point "t_seed"
  let serialNumber ← point "t_output"
  let response ← scalar "z_seed"
  return ⟨⟨key, serialNumber⟩, response⟩

/-- Decodes the proof of a revealed serial number. -/
def decodeRevealedSerial (bs : Bytes) : Machine (SerialNumber.Revealed.Proof P) :=
  decodeFixed SerialNumber.Revealed.byteLength readRevealedSerial bs

/-! ## Signatures and ciphertexts -/

/-- The scalar of a string, a failure attributed to a field. -/
def component (field : String) (bs : Bytes) : Machine Scalar :=
  within field (ofExcept (Scalar.ofBytes bs))

/-- Decodes a signature of either length. -/
def decodeSignature (bs : Bytes) : Machine Signature := do
  let n := Scalar.byteLength
  let blindingResponse ←
    if bs.length = 2 * n then pure none
    else if bs.length = 3 * n then some <$> (slice bs (2 * n) bs.length >>= component "z2")
    else refuse (.lengthMismatch (3 * n) bs.length)
  let challenge ← slice bs 0 n >>= component "e"
  let response ← slice bs n (2 * n) >>= component "z1"
  return ⟨challenge, response, blindingResponse⟩

/-- Decodes a ciphertext of a point. -/
def decodeElgamal (bs : Bytes) : Machine (Elgamal.Ciphertext P) :=
  if bs.length = Elgamal.Ciphertext.byteLength then do
    let first ← slice bs 0 pointLength
    let exponentCommitment ← within "c1" (ofExcept (readPoint first))
    let second ← slice bs pointLength bs.length
    let masked ← within "c2" (ofExcept (readPoint second))
    return ⟨exponentCommitment, masked⟩
  else
    refuse (.lengthMismatch Elgamal.Ciphertext.byteLength bs.length)

/-- Decodes a ciphertext of a message; the empty string is the empty ciphertext. -/
def decodeHybrid (bs : Bytes) : Machine (Hybrid.Ciphertext P) :=
  let n := Elgamal.Ciphertext.byteLength
  if bs.isEmpty then .ok .empty
  else if bs.length < n then refuse (.ciphertextTooShort bs.length)
  else do
    let front ← slice bs 0 n
    let encryptedKey ← within "symmetric key ciphertext" (decodeElgamal front)
    let encryptedMessage ← slice bs n bs.length
    return ⟨some encryptedKey, encryptedMessage⟩

/-! ## Coins -/

/-- Reads the length of a field, which is zero or `length`, and says whether the field has
content. -/
def readLength (field : String) (length : Nat) : SliceReader Bool := do
  let n ← nat8 field
  if n = 0 then return false
  else if n = length then return true
  else fail (.malformed field (.lengthMismatch length n))

/-- Reads a field that may be blank. -/
def readField {α : Type} (field : String) (length : Nat) (read : SliceReader α) (blank : α) :
    SliceReader α := do
  if ← readLength field length then read else return blank

/-- Reads a coin. -/
def readCoin : SliceReader (Coin P) := do
  let publicKey ← readField "public key" pointLength (point "public key") 0
  let commitment ← readField "coin commitment" pointLength (point "coin commitment") 0
  let derivator ← readField "snd" Scalar.byteLength (scalar "snd") 0
  let serialNumber ← readField "serial number" pointLength (point "serial number") 0
  let blinding ← readField "randomness" Scalar.byteLength (scalar "randomness") 0
  let value ← readField "value" Coin.valueLength (uint64 "value") 0
  let infoLength ← nat8 "info"
  let info ← bytes "info" infoLength
  return ⟨publicKey, commitment, derivator, serialNumber, blinding, value, info⟩

/-- Decodes a coin. -/
def decodeCoin (bs : Bytes) : Machine (Coin P) := decode readCoin bs

/-- Reads an output. -/
def readOutput : SliceReader (OutputCoin P) := do
  let length ← nat16 "ciphertext"
  let bs ← bytes "ciphertext" length
  let ciphertext ← SliceReader.within "ciphertext" (decodeHybrid bs)
  let coin ← readCoin
  return ⟨coin, ciphertext⟩

/-- Decodes an output. -/
def decodeOutput (bs : Bytes) : Machine (OutputCoin P) := decode readOutput bs

/-! ## Payments -/

/-- Reads a string behind its length. -/
def readItem (field : String) : SliceReader Bytes := do
  let length ← nat16 field
  bytes field length

/-- Reads a list of items behind their number, each of which fills its string. -/
def readItems {α : Type} (field : String) (decode : Bytes → Machine α) : SliceReader (List α) := do
  let count ← nat16 field
  repeated (do SliceReader.within field (decode (← readItem field))) count

/-- Reads an item whose string may be empty, in which case there is none. -/
def readOptionalItem {α : Type} (field : String) (decode : Bytes → Machine α) :
    SliceReader (Option α) := do
  let length ← nat16 field
  if length = 0 then return none
  else some <$> (do SliceReader.within field (decode (← bytes field length)))

/-- Reads points behind their number. -/
def readPoints (field : String) : SliceReader (List P) := do
  let count ← nat16 field
  points field count

/-- Reads a point behind its length, which is zero if there is none. -/
def readOptionalPoint (field : String) : SliceReader (Option P) := do
  let length ← nat16 field
  if length = 0 then return none
  else if length = pointLength then some <$> point field
  else fail (.malformed field (.lengthMismatch pointLength length))

/-- Reads as many ring indices as there are ring members, which have to be all that remains. -/
def readIndices (count : Nat) : SliceReader (List UInt64) := do
  let left ← remaining
  let needed ← lift (mul count Payment.indexLength)
  if left = needed then repeated (uint64 "commitment index") count
  else fail (.malformed "commitment indices" (.lengthMismatch needed left))

/-- Reads a payment. -/
def readPayment : SliceReader (Payment.Proof P) := do
  let memberships ← readItems "one-out-of-many proof" decodeMembership
  let hiddenSerials ← readItems "serial number privacy proof" decodeHiddenSerial
  let revealedSerials ← readItems "serial number no-privacy proof" decodeRevealedSerial
  let range ← readOptionalItem "range proof" decodeRange
  let inputs ← readItems "input coin" decodeCoin
  let outputs ← readItems "output coin" decodeOutput
  let outputValues ← readPoints "output value commitment"
  let outputDerivators ← readPoints "output snd commitment"
  let outputShards ← readPoints "output shard id commitment"
  let key ← readOptionalPoint "input private key commitment"
  let inputValues ← readPoints "input value commitment"
  let inputDerivators ← readPoints "input snd commitment"
  let inputShard ← readOptionalPoint "input shard id commitment"
  let indexCount ← lift (mul memberships.length Membership.ringSize)
  let ringIndices ← readIndices indexCount
  return { memberships, hiddenSerials, revealedSerials, range, inputs, outputs, outputValues,
           outputDerivators, outputShards, key, inputValues, inputDerivators, inputShard,
           ringIndices }

/-- Decodes a payment. -/
def decodePayment (bs : Bytes) : Machine (Payment.Proof P) := decode readPayment bs

end ConfidentialPayment.Machine
