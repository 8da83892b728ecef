import ConfidentialPayment.Payment.Proof
import ConfidentialPayment.Ledger
import ConfidentialPayment.Membership.Batch

/-!
# ConfidentialPayment.Payment.Verification

Checking payments against a ledger.

The statements of all proofs are rebuilt from the coins and the commitments that a payment shows. A
transparent payment is checked by adding its amounts up; a private one by adding its value
commitments up, which its range proof keeps from wrapping. The numbers of the statements are: 0 the
shape of the payment, 1 its inputs, 2 its outputs, 3 the commitments of its range proof, and 4 its
balance.
-/

namespace ConfidentialPayment.Payment

variable {P : Type} [Suite P]

/-! ## Serial numbers -/

/-- Whether two neighbours of a list are equal. -/
def hasEqualNeighbours {α : Type} [DecidableEq α] : List α → Bool
  | a :: b :: rest => a = b || hasEqualNeighbours (b :: rest)
  | _ => false

/-- Whether two coins have the same serial number: whether equal ones meet in the sorted list. -/
def repeatsSerialNumber (coins : List (Coin P)) : Bool :=
  hasEqualNeighbours <|
    (coins.map Coin.serialNumber).mergeSort fun a b => (comparePoints a b).isLE

/-! ## Transparent payments -/

/-- Whether a payment has the parts of a transparent one. -/
def Proof.isTransparent (proof : Proof P) : Bool :=
  proof.revealedSerials.length = proof.inputs.length && proof.memberships.isEmpty &&
    proof.hiddenSerials.isEmpty && proof.range.isNone

/-- What the proof of a transparent input is about. -/
def revealedStatement (coin : Coin P) : SerialNumber.Revealed.Statement P :=
  ⟨coin.serialNumber, coin.publicKey, coin.derivator⟩

/-- Checks the inputs of a transparent payment and adds their values to a total: every coin is
committed to, on the ledger, and spent under its own serial number. -/
def spendRevealed (gens : Generators P) (ledger : Ledger.View P) (total : UInt64) :
    List (Coin P × SerialNumber.Revealed.Proof P) → Except Error UInt64
  | [] => .ok total
  | (coin, proof) :: rest => do
    if ¬ (coin.isCommitted gens ∧ ledger.contains coin.commitment) then
      throw (.rejected .payment 1)
    proof.verify gens (revealedStatement coin)
    spendRevealed gens ledger (← Amount.add total coin.value) rest

/-- Checks the outputs of a transparent payment and adds their values to a total: every coin is
committed to. -/
def createRevealed (gens : Generators P) (total : UInt64) :
    List (OutputCoin P) → Except Error UInt64
  | [] => .ok total
  | output :: rest => do
    if ¬ output.coin.isCommitted gens then throw (.rejected .payment 2)
    createRevealed gens (← Amount.add total output.coin.value) rest

/-- Checks a transparent payment. -/
def Proof.verifyTransparent (gens : Generators P) (ledger : Ledger.View P) (fee : UInt64)
    (proof : Proof P) : Except Error Unit := do
  if ¬ proof.isTransparent then throw (.rejected .payment 0)
  let spent ← spendRevealed gens ledger 0 (proof.inputs.zip proof.revealedSerials)
  let created ← createRevealed gens fee proof.outputs
  if spent ≠ created then throw (.rejected .payment 4)

/-! ## Private payments -/

/-- The parts that only private payments have and that have to be there. -/
structure Shielding (P : Type) where
  key : P
  shard : P
  range : RangeProof.Proof P

/-- The parts of a private payment, if all its lists have the lengths that its inputs and outputs
ask for and nothing is missing. -/
def Proof.shielding? (proof : Proof P) : Option (Shielding P) :=
  let inputs := proof.inputs.length
  let outputs := proof.outputs.length
  if proof.memberships.length = inputs ∧ proof.hiddenSerials.length = inputs ∧
      proof.inputValues.length = inputs ∧ proof.inputDerivators.length = inputs ∧
      proof.ringIndices.length = inputs * Membership.ringSize ∧
      proof.outputValues.length = outputs ∧ proof.outputDerivators.length = outputs ∧
      proof.outputShards.length = outputs ∧ proof.revealedSerials = [] then
    match proof.key, proof.inputShard, proof.range with
    | some key, some shard, some range => some ⟨key, shard, range⟩
    | _, _, _ => none
  else
    none

/-- Whether a point commits to a shard, without blinding. -/
def isShardCommitment (gens : Generators P) (commitment : P) : Bool :=
  (List.range shardCount).any fun shard => gens.commitShard shard = commitment

/-- The sum of the parts of an input's commitment. -/
def inputSum (key value derivator shard : P) : P := key + value + derivator + shard

/-- The ledger commitment with a number, less the parts of an input. -/
def ringMember (ledger : Ledger.View P) (sum : P) (index : UInt64) : Except Error P :=
  match ledger.commitmentAt index with
  | some commitment => .ok (commitment - sum)
  | none => .error (.unknownCommitment index.toNat)

/-- For each input the commitments of its ring less its parts, so that the member that is spent
opens to zero. -/
def Proof.rings (ledger : Ledger.View P) (s : Shielding P) (proof : Proof P) :
    Except Error (List (List P)) :=
  let sums := List.zipWith (fun value derivator => inputSum s.key value derivator s.shard)
    proof.inputValues proof.inputDerivators
  ((Bytes.chunks Membership.ringSize proof.ringIndices).zip sums).mapM fun (indices, sum) =>
    indices.mapM (ringMember ledger sum)

/-- Checks the serial numbers of private inputs. -/
def Proof.verifyHiddenSerials (gens : Generators P) (s : Shielding P) (proof : Proof P) :
    Except Error Unit :=
  ((proof.inputs.zip proof.hiddenSerials).zip proof.inputDerivators).forM
    fun ((coin, serial), derivator) => serial.verify gens ⟨coin.serialNumber, s.key, derivator⟩

/-- Whether the commitment of a private output is made of its public key and the given parts, and
the parts for derivator and shard hide nothing. -/
def isAssembled (gens : Generators P) (coin : Coin P) (value derivator shard : P) : Bool :=
  derivator = gens.commitDerivator coin.derivator && shard = gens.commitShard coin.shard &&
    coin.publicKey + value + derivator + shard = coin.commitment

/-- Whether the commitments of all private outputs are made of their parts. -/
def Proof.outputsAreAssembled (gens : Generators P) (proof : Proof P) : Bool :=
  (proof.outputs.zip (proof.outputValues.zip (proof.outputDerivators.zip proof.outputShards))).all
    fun (output, value, derivator, shard) => isAssembled gens output.coin value derivator shard

/-- Whether value commitments balance: the inputs amount to the outputs and the fee. -/
def Proof.isBalanced (gens : Generators P) (fee : UInt64) (proof : Proof P) : Bool :=
  sumPoints proof.inputValues =
    sumPoints proof.outputValues + Scalar.ofUInt64 fee • gens.value

/-- Checks what comes before the membership proofs and gives the rings that they are about. -/
def Proof.openRings (gens : Generators P) (ledger : Ledger.View P) (s : Shielding P)
    (proof : Proof P) : Except Error (List (List P)) :=
  if isShardCommitment gens s.shard then proof.rings ledger s else .error (.rejected .payment 1)

/-- Checks what comes after the membership proofs. -/
def Proof.verifyShielded (gens : Generators P) (table : GeneratorTable P) (fee : UInt64)
    (s : Shielding P) (proof : Proof P) : Except Error Unit := do
  proof.verifyHiddenSerials gens s
  if ¬ proof.outputsAreAssembled gens then throw (.rejected .payment 2)
  if s.range.commitments ≠ proof.outputValues then throw (.rejected .payment 3)
  s.range.verify gens table
  if ¬ proof.isBalanced gens fee then throw (.rejected .payment 4)

/-- Checks a private payment; the randomness weighs its membership proofs. -/
def Proof.verifyPrivate (gens : Generators P) (table : GeneratorTable P) (ledger : Ledger.View P)
    (fee : UInt64) (proof : Proof P) : DrawExcept Unit := do
  match proof.shielding? with
  | none => DrawExcept.fail (.rejected .payment 0)
  | some s =>
    let rings ← DrawExcept.ofExcept (proof.openRings gens ledger s)
    Membership.verifyBatch gens proof.memberships rings
    DrawExcept.ofExcept (proof.verifyShielded gens table fee s)

/-! ## All payments -/

/-- Refuses a payment without inputs or outputs, and then one that spends a serial number twice. -/
def Proof.checkCoins (proof : Proof P) : Except Error Unit :=
  if proof.inputs.isEmpty || proof.outputs.isEmpty then .error (.rejected .payment 0)
  else if repeatsSerialNumber proof.inputs then .error .serialNumberRepeated
  else .ok ()

/-- Checks a payment with a fee against a ledger. -/
def Proof.verify (gens : Generators P) (table : GeneratorTable P) (ledger : Ledger.View P)
    (isPrivate : Bool) (fee : UInt64) (proof : Proof P) : DrawExcept Unit := do
  DrawExcept.ofExcept proof.checkCoins
  if isPrivate then proof.verifyPrivate gens table ledger fee
  else DrawExcept.ofExcept (proof.verifyTransparent gens ledger fee)

end ConfidentialPayment.Payment
