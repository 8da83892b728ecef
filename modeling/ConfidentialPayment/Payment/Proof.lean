import ConfidentialPayment.Coin.Output
import ConfidentialPayment.Membership
import ConfidentialPayment.RangeProof
import ConfidentialPayment.SerialNumber.Hidden
import ConfidentialPayment.SerialNumber.Revealed

/-!
# ConfidentialPayment.Payment.Proof

What a payment publishes.

A payment is either transparent or private. A transparent one shows its coins and proves for each
input that its serial number is right. A private one shows the serial numbers of its inputs only;
every input is proved to be a member of a ring of ledger commitments, and the values of the outputs
are proved to be in range. Both are written in one format, so a `Proof` has room for the parts of
both, and verification says which parts have to be there.

Amounts are 64-bit numbers. Their sums never wrap: a sum that leaves the range is an error, so a
total that comes out is the sum of the amounts as integers.
-/

namespace ConfidentialPayment

/-! ## Amounts -/

namespace Amount

/-- The sum of two amounts, if it is a 64-bit number. -/
def add (a b : UInt64) : Except Error UInt64 :=
  if a.toNat + b.toNat < UInt64.size then .ok (a + b) else .error .overflow

/-- The sum of a list of amounts on top of a first one. -/
def addAll (first : UInt64) : List UInt64 → Except Error UInt64
  | [] => .ok first
  | a :: rest => do addAll (← add first a) rest

/-- The sum of a list of amounts. -/
def total (amounts : List UInt64) : Except Error UInt64 := addAll 0 amounts

end Amount

/-! ## Payments -/

namespace Payment

/-- The most inputs of a payment. -/
def maxInputs : Nat := 255

/-- The most outputs of a payment, as many as one range proof covers. -/
def maxOutputs : Nat := RangeProof.maxValues

/-- A payment with all its proofs. -/
structure Proof (P : Type) where
  /-- For each private input that it is in its ring. -/
  memberships : List (Membership.Proof P) := []
  /-- For each private input that its serial number is right. -/
  hiddenSerials : List (SerialNumber.Hidden.Proof P) := []
  /-- For each transparent input that its serial number is right. -/
  revealedSerials : List (SerialNumber.Revealed.Proof P) := []
  /-- That the values of private outputs are 64-bit numbers. -/
  range : Option (RangeProof.Proof P) := none
  inputs : List (Coin P)
  outputs : List (OutputCoin P)
  /-- For each private output the parts of its commitment. -/
  outputValues : List P := []
  outputDerivators : List P := []
  outputShards : List P := []
  /-- The commitment to the private key that owns all private inputs. -/
  key : Option P := none
  /-- For each private input fresh commitments to its value and its derivator. -/
  inputValues : List P := []
  inputDerivators : List P := []
  /-- The commitment to the shard of all private inputs. -/
  inputShard : Option P := none
  /-- The ledger numbers of all rings, one ring after the other. -/
  ringIndices : List UInt64 := []

end Payment

end ConfidentialPayment
