import ConfidentialPayment.Coin
import ConfidentialPayment.Wire

/-!
# ConfidentialPayment.Coin.Encoding

The wire form of coins: seven fields, each behind its length in one byte, where a blank field has
length zero.
-/

namespace ConfidentialPayment.Coin

variable {P : Type} [Suite P]

/-- The length of an encoded value. -/
def valueLength : Nat := 8

/-! ## Writing -/

/-- A field that is blank or has the given content. -/
def writeField (blank : Bool) (content : Bytes) : Bytes :=
  if blank then Writer.nat8 0 else Writer.nat8 content.length ++ content

/-- A point, blank if neutral. -/
def writePoint (p : P) : Bytes := writeField (p = 0) (Suite.encode p)

/-- A scalar, blank if zero. -/
def writeScalar (x : Scalar) : Bytes := writeField (x = 0) x.toBytes

/-- A value, blank if zero. -/
def writeValue (v : UInt64) : Bytes := writeField (v = 0) (Writer.uint64 v)

/-- The encoding of a coin. -/
def toBytes (coin : Coin P) : Bytes :=
  writePoint coin.publicKey ++ writePoint coin.commitment ++ writeScalar coin.derivator ++
    writePoint coin.serialNumber ++ writeScalar coin.blinding ++ writeValue coin.value ++
    Writer.nat8 coin.info.length ++ coin.info

/-! ## Reading -/

/-- Reads the length of a field, which is zero or `length`, and says whether the field has
content. -/
def readLength (field : String) (length : Nat) : Reader Bool := do
  let n ← Reader.nat8 field
  if n = 0 then return false
  else if n = length then return true
  else Reader.fail (.malformed field (.lengthMismatch length n))

/-- Reads a point that may be blank. -/
def readPoint (field : String) : Reader P := do
  if ← readLength field pointLength then Reader.point field else return 0

/-- Reads a scalar that may be blank. -/
def readScalar (field : String) : Reader Scalar := do
  if ← readLength field Scalar.byteLength then Reader.scalar field else return 0

/-- Reads a value that may be blank. -/
def readValue (field : String) : Reader UInt64 := do
  if ← readLength field valueLength then Reader.uint64 field else return 0

/-- Reads a coin from the front of a string. -/
def reader : Reader (Coin P) := do
  let publicKey ← readPoint "public key"
  let commitment ← readPoint "coin commitment"
  let derivator ← readScalar "snd"
  let serialNumber ← readPoint "serial number"
  let blinding ← readScalar "randomness"
  let value ← readValue "value"
  let infoLength ← Reader.nat8 "info"
  let info ← Reader.bytes "info" infoLength
  return ⟨publicKey, commitment, derivator, serialNumber, blinding, value, info⟩

/-- Reads a coin that fills a string. -/
def ofBytes (bs : Bytes) : Except Error (Coin P) := reader.decode bs

end ConfidentialPayment.Coin
