import ConfidentialPayment.Machine.Reader
import ConfidentialPayment.RangeProof.Encoding

/-!
# ConfidentialPayment.Machine.RangeProof

The length of a range proof on the machine, and the decoders of inner product arguments and range
proofs.

The length is asked for before there is a proof, so the number of values may be any word. The rounds
are counted by the zeros behind the leading digit of the length of the vectors.
-/

namespace ConfidentialPayment.Machine

/-! ## The length of a range proof -/

/-- The number of rounds of the argument of a proof about a number of values. -/
def rangeRounds (count : Nat) : Machine Nat := do
  let length ← mul RangeProof.bitCount (← pad count)
  return trailingZeros wordBits length

/-- The length of an encoded range proof about a number of values: their commitments, two points
for every round and five more, five scalars, and two bytes for the numbers of values and of
rounds. -/
def rangeProofLength (count : Nat) : Machine Nat := do
  let rounds ← rangeRounds count
  let points ← add (← add count (← mul 2 rounds)) 5
  let length ← add (← mul points pointLength) (← mul 5 pointLength)
  add length 2

/-! ## Decoding -/

open SliceReader

variable {P : Type} [Suite P]

/-- Reads the number of rounds of an inner product argument. -/
def readRoundCount : SliceReader Nat := do
  let count ← nat8 "ipp rounds"
  if count < InnerProduct.maxRounds then return count
  else fail (.malformed "ipp rounds" (.lengthMismatch (InnerProduct.maxRounds - 1) count))

/-- Reads an inner product argument. -/
def readArgument : SliceReader (InnerProduct.Proof P) := do
  let count ← readRoundCount
  let lefts ← points "ipp L" count
  let rights ← points "ipp R" count
  let a ← scalar "ipp a"
  let b ← scalar "ipp b"
  let commitment ← point "ipp p"
  return ⟨List.zipWith InnerProduct.Round.mk lefts rights, a, b, commitment⟩

/-- Decodes an inner product argument. -/
def decodeArgument (bs : Bytes) : Machine (InnerProduct.Proof P) := decode readArgument bs

/-- Reads the number of values of a range proof. -/
def readValueCount : SliceReader Nat := do
  let count ← nat8 "value count"
  if count = 0 then fail (.malformed "value count" .emptyInput)
  else if count > RangeProof.maxValues then
    fail (.malformed "value count" (.tooManyOutputs count RangeProof.maxValues))
  else return count

/-- Reads a range proof. -/
def readRange : SliceReader (RangeProof.Proof P) := do
  let count ← readValueCount
  let commitments ← points "value commitment" count
  let digits ← point "A"
  let masks ← point "S"
  let linear ← point "T1"
  let quadratic ← point "T2"
  let blinding ← scalar "tau_x"
  let value ← scalar "t_hat"
  let vectorBlinding ← scalar "mu"
  let argument ← readArgument
  return ⟨commitments, ⟨digits, masks⟩, ⟨linear, quadratic⟩, ⟨value, blinding, vectorBlinding⟩,
    argument⟩

/-- Whether a range proof has a number of values within bounds and an argument about vectors of the
length that they need. Neither the shift nor the padding comes before the bounds. -/
def isWellFormed (proof : RangeProof.Proof P) : Machine Bool := do
  let count := proof.commitments.length
  if ¬ 0 < count then return false
  if ¬ count ≤ RangeProof.maxValues then return false
  if ¬ proof.argument.isWellFormed then return false
  let length ← shiftLeft 1 proof.argument.rounds.length
  let needed ← mul RangeProof.bitCount (← pad count)
  return length = needed

/-- Decodes a range proof; its argument has to have as many rounds as its values need. -/
def decodeRange (bs : Bytes) : Machine (RangeProof.Proof P) := do
  let proof ← decode readRange bs
  if ← isWellFormed proof then return proof
  else
    let needed ← mul RangeProof.bitCount (← pad proof.commitments.length)
    refuse (.malformed "ipp rounds"
      (.lengthMismatch (trailingZeros wordBits needed) proof.argument.rounds.length))

end ConfidentialPayment.Machine
