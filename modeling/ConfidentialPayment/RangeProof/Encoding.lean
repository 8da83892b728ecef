import ConfidentialPayment.RangeProof

/-!
# ConfidentialPayment.RangeProof.Encoding

The wire form of range proofs: the number of values in one byte, their commitments, four points,
three scalars, and the inner product argument. The number of values fixes the length.
-/

namespace ConfidentialPayment.RangeProof

/-- The length of an encoded proof about a number of values. -/
def byteLength (count : Nat) : Nat :=
  1 + (count + 4) * pointLength + 3 * Scalar.byteLength +
    (1 + (2 * roundCount count + 1) * pointLength + 2 * Scalar.byteLength)

/-- The length of an encoded proof, where the length of its vectors is a 64-bit number. -/
def byteLength64? (count : Nat) : Option Nat :=
  if vectorLength count < UInt64.size then some (byteLength count) else none

variable {P : Type} [Suite P]

/-- The encoding of a proof. -/
def Proof.toBytes (proof : Proof P) : Bytes :=
  let e := proof.evaluation
  Writer.nat8 proof.commitments.length ++ Writer.points proof.commitments ++
    Writer.points [proof.vectors.digits, proof.vectors.masks, proof.polynomial.linear,
      proof.polynomial.quadratic] ++
    Writer.scalars [e.blinding, e.value, e.vectorBlinding] ++ proof.argument.toBytes

/-- Reads the number of values. -/
def readCount : Reader Nat := do
  let count ← Reader.nat8 "value count"
  if count = 0 then Reader.fail (.malformed "value count" .emptyInput)
  else if count > maxValues then
    Reader.fail (.malformed "value count" (.tooManyOutputs count maxValues))
  else return count

/-- Reads a proof from the front of a string. -/
def Proof.reader : Reader (Proof P) := do
  let count ← readCount
  let commitments ← Reader.points "value commitment" count
  let digits ← Reader.point "A"
  let masks ← Reader.point "S"
  let linear ← Reader.point "T1"
  let quadratic ← Reader.point "T2"
  let blinding ← Reader.scalar "tau_x"
  let value ← Reader.scalar "t_hat"
  let vectorBlinding ← Reader.scalar "mu"
  let argument ← InnerProduct.Proof.reader
  return ⟨commitments, ⟨digits, masks⟩, ⟨linear, quadratic⟩, ⟨value, blinding, vectorBlinding⟩,
    argument⟩

/-- Reads a proof that fills a string; its argument has to have as many rounds as its values
need. -/
def Proof.ofBytes (bs : Bytes) : Except Error (Proof P) := do
  let proof ← Proof.reader.decode bs
  if proof.isWellFormed then return proof
  else
    throw (.malformed "ipp rounds" (.lengthMismatch (roundCount proof.commitments.length)
      proof.argument.rounds.length))

end ConfidentialPayment.RangeProof
