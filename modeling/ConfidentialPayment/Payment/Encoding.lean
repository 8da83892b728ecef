import ConfidentialPayment.Digest
import ConfidentialPayment.Membership
import ConfidentialPayment.Payment.Proof
import ConfidentialPayment.RangeProof.Encoding

/-!
# ConfidentialPayment.Payment.Encoding

The wire form of payments.

1. Proofs and coins come in lists: their number in two bytes, then each behind its length in two
   bytes. The range proof stands alone behind its length, which is zero if there is none.
2. Commitments come in lists of points behind their number; the two single ones are behind a
   length, which is zero if they are missing.
3. The ring indices come last, eight bytes each; their number follows from the number of
   membership proofs.

The digest of the wire form is what a payment's signature signs.
-/

namespace ConfidentialPayment.Payment

variable {P : Type} [Suite P]

/-! ## Writing -/

/-- A string behind its length. -/
def writeItem (item : Bytes) : Bytes := Writer.nat16 item.length ++ item

/-- Strings, each behind its length, behind their number. -/
def writeItems (items : List Bytes) : Bytes :=
  Writer.nat16 items.length ++ items.flatMap writeItem

/-- Points behind their number. -/
def writePoints (points : List P) : Bytes := Writer.nat16 points.length ++ Writer.points points

/-- A point behind its length, or the length zero. -/
def writeOptionalPoint : Option P → Bytes
  | some p => writeItem (Suite.encode p)
  | none => writeItem []

/-- The encoding of a payment. -/
def Proof.toBytes (proof : Proof P) : Bytes :=
  writeItems (proof.memberships.map Membership.Proof.toBytes) ++
    writeItems (proof.hiddenSerials.map SerialNumber.Hidden.Proof.toBytes) ++
    writeItems (proof.revealedSerials.map SerialNumber.Revealed.Proof.toBytes) ++
    writeItem ((proof.range.map RangeProof.Proof.toBytes).getD []) ++
    writeItems (proof.inputs.map Coin.toBytes) ++
    writeItems (proof.outputs.map OutputCoin.toBytes) ++
    writePoints proof.outputValues ++ writePoints proof.outputDerivators ++
    writePoints proof.outputShards ++ writeOptionalPoint proof.key ++
    writePoints proof.inputValues ++ writePoints proof.inputDerivators ++
    writeOptionalPoint proof.inputShard ++ proof.ringIndices.flatMap Writer.uint64

/-- The digest of a payment. -/
def Proof.digest (proof : Proof P) : Digest := .hash proof.toBytes

/-! ## Reading -/

/-- Reads a string behind its length. -/
def readItem (field : String) : Reader Bytes := do
  let length ← Reader.nat16 field
  Reader.bytes field length

/-- Reads a list of items behind their number, each of which fills its string. -/
def readItems {α : Type} (field : String) (decode : Bytes → Except Error α) : Reader (List α) := do
  let count ← Reader.nat16 field
  Reader.repeated (do Reader.within field (decode (← readItem field))) count

/-- Reads an item whose string may be empty, in which case there is none. -/
def readOptionalItem {α : Type} (field : String) (decode : Bytes → Except Error α) :
    Reader (Option α) := do
  let item ← readItem field
  if item.isEmpty then return none
  else some <$> Reader.within field (decode item)

/-- Reads points behind their number. -/
def readPoints (field : String) : Reader (List P) := do
  let count ← Reader.nat16 field
  Reader.points field count

/-- Reads a point behind its length, which is zero if there is none. -/
def readOptionalPoint (field : String) : Reader (Option P) := do
  let length ← Reader.nat16 field
  if length = 0 then return none
  else if length = pointLength then some <$> Reader.point field
  else Reader.fail (.malformed field (.lengthMismatch pointLength length))

/-- The length of an encoded ring index. -/
def indexLength : Nat := 8

/-- Reads as many ring indices as there are ring members, which have to be all that remains. -/
def readIndices (count : Nat) : Reader (List UInt64) := do
  let remaining ← Reader.remaining
  if remaining = count * indexLength then
    Reader.repeated (Reader.uint64 "commitment index") count
  else
    Reader.fail (.malformed "commitment indices" (.lengthMismatch (count * indexLength) remaining))

/-- Reads a payment from the front of a string. -/
def Proof.reader : Reader (Proof P) := do
  let memberships ← readItems "one-out-of-many proof" Membership.Proof.ofBytes
  let hiddenSerials ← readItems "serial number privacy proof" SerialNumber.Hidden.Proof.ofBytes
  let revealedSerials ←
    readItems "serial number no-privacy proof" SerialNumber.Revealed.Proof.ofBytes
  let range ← readOptionalItem "range proof" RangeProof.Proof.ofBytes
  let inputs ← readItems "input coin" Coin.ofBytes
  let outputs ← readItems "output coin" OutputCoin.ofBytes
  let outputValues ← readPoints "output value commitment"
  let outputDerivators ← readPoints "output snd commitment"
  let outputShards ← readPoints "output shard id commitment"
  let key ← readOptionalPoint "input private key commitment"
  let inputValues ← readPoints "input value commitment"
  let inputDerivators ← readPoints "input snd commitment"
  let inputShard ← readOptionalPoint "input shard id commitment"
  let ringIndices ← readIndices (memberships.length * Membership.ringSize)
  return { memberships, hiddenSerials, revealedSerials, range, inputs, outputs, outputValues,
           outputDerivators, outputShards, key, inputValues, inputDerivators, inputShard,
           ringIndices }

/-- Reads a payment that fills a string. -/
def Proof.ofBytes (bs : Bytes) : Except Error (Proof P) := Proof.reader.decode bs

end ConfidentialPayment.Payment
