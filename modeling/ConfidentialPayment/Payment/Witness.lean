import ConfidentialPayment.Membership.Witness
import ConfidentialPayment.Payment.Request
import ConfidentialPayment.RangeProof.Witness
import ConfidentialPayment.Signature

/-!
# ConfidentialPayment.Payment.Witness

From requests to payments.

1. `Witness.ofRequest` checks a request and commits to everything that the payment will hide. The
   blindings of the outputs sum to those of the inputs, so the value commitments balance.
2. `Witness.prove` makes the proofs, encrypts the details of private outputs to their payees, and
   leaves nothing of private inputs but the serial numbers.
3. `Witness.signingKey` is the key whose public part every reader of the payment can name.
-/

namespace ConfidentialPayment.Payment

/-! ## Witnesses -/

/-- A transparent payment: its inputs and its finished outputs. -/
structure TransparentWitness (P : Type) where
  privateKey : Scalar
  inputs : List (Coin P)
  outputs : List (OutputCoin P)

/-- An input of a private payment: the fresh commitments to value and derivator with their
blindings, and the ring in which the coin opens to zero. -/
structure ShieldedInput (P : Type) where
  coin : Coin P
  valueBlinding : Scalar
  derivatorBlinding : Scalar
  value : P
  derivator : P
  membership : Membership.Witness P

/-- An output of a private payment: the committed coin, the key that its details go to, and the
parts of its commitment. -/
structure ShieldedOutput (P : Type) where
  output : OutputCoin P
  transmissionKey : P
  value : P
  derivator : P
  shard : P

/-- A private payment. -/
structure ShieldedWitness (P : Type) where
  privateKey : Scalar
  keyBlinding : Scalar
  key : P
  shard : P
  inputs : List (ShieldedInput P)
  outputs : List (ShieldedOutput P)
  range : RangeProof.Witness
  ringIndices : List UInt64

/-- A payment that is ready to be proved. -/
inductive Witness (P : Type)
  | transparent (w : TransparentWitness P)
  | shielded (w : ShieldedWitness P)

variable {P : Type} [Suite P]

/-! ## Transparent payments -/

/-- Blinds and commits to an output. -/
def commitOutput (gens : Generators P) (output : OutputCoin P) : Draw (OutputCoin P) := do
  let blinding ← RandomSource.scalar
  return { output with coin := { output.coin with blinding }.commit gens }

/-! ## Private payments -/

/-- The private key with its blinding, and the commitments that all inputs share. -/
structure InputKey (P : Type) where
  privateKey : Scalar
  blinding : Scalar
  key : P
  shard : P

/-- Blinds a private key and commits to it and to the shard of its account. -/
def InputKey.draw (gens : Generators P) (privateKey : Scalar) : Draw (InputKey P) := do
  let blinding ← RandomSource.scalar
  return { privateKey, blinding
           key := gens.commitTo .privateKey privateKey blinding
           shard := gens.commitShard (shardOf (privateKey • gens.privateKey)) }

/-- An input with given blindings. What is left of the coin's blinding opens its ring member. -/
def shieldInputWith (gens : Generators P) (k : InputKey P) (input : RingInput P)
    (valueBlinding derivatorBlinding : Scalar) : Except Error (ShieldedInput P) := do
  let coin := input.coin
  let value := gens.commitTo .value (.ofUInt64 coin.value) valueBlinding
  let derivator := gens.commitTo .derivator coin.derivator derivatorBlinding
  let sum := k.key + value + derivator + k.shard
  let membership ← Membership.Witness.make (input.ring.map (· - sum)) input.position
    (coin.blinding - (k.blinding + valueBlinding + derivatorBlinding))
  return { coin, valueBlinding, derivatorBlinding, value, derivator, membership }

/-- Checks an input against its ring and blinds it. -/
def shieldInput (gens : Generators P) (k : InputKey P) (input : RingInput P) :
    DrawExcept (ShieldedInput P) := do
  DrawExcept.ofExcept input.check
  let valueBlinding ← RandomSource.scalar
  let derivatorBlinding ← RandomSource.scalar
  DrawExcept.ofExcept (shieldInputWith gens k input valueBlinding derivatorBlinding)

/-- An output with a given blinding, all of which sits in the commitment to its value. -/
def shieldOutputWith (gens : Generators P) (output : OutputCoin P) (transmissionKey : P)
    (blinding : Scalar) : ShieldedOutput P :=
  let coin := output.coin
  let value := gens.commitTo .value (.ofUInt64 coin.value) blinding
  let derivator := gens.commitDerivator coin.derivator
  let shard := gens.commitShard coin.shard
  let commitment := coin.publicKey + value + derivator + shard
  { output := { output with coin := { coin with commitment, blinding } }
    transmissionKey, value, derivator, shard }

/-- Blinds the outputs so that their blindings sum to the given one: all but the last are drawn,
and the last one has what remains. -/
def shieldOutputs (gens : Generators P) (remaining : Scalar) :
    List (OutputCoin P × P) → Draw (List (ShieldedOutput P))
  | [] => pure []
  | [(output, transmissionKey)] =>
    pure [shieldOutputWith gens output transmissionKey remaining]
  | (output, transmissionKey) :: rest => do
    let blinding ← RandomSource.scalar
    let others ← shieldOutputs gens (remaining - blinding) rest
    return shieldOutputWith gens output transmissionKey blinding :: others

/-- Hides the inputs in their rings and blinds the outputs. -/
def ShieldedWitness.build (gens : Generators P) (r : Request P) (outputs : List (OutputCoin P)) :
    DrawExcept (ShieldedWitness P) := do
  DrawExcept.ofExcept r.checkRings
  let k ← InputKey.draw gens r.privateKey
  let inputs ← r.ringInputs.mapM (shieldInput gens k)
  let remaining := Scalar.sum (inputs.map ShieldedInput.valueBlinding)
  let outputs ← shieldOutputs gens remaining (outputs.zip (r.payees.map Payee.transmissionKey))
  let coins := outputs.map fun o => o.output.coin
  let range ← DrawExcept.ofExcept <|
    RangeProof.Witness.make (coins.map Coin.value) (coins.map Coin.blinding)
  return { privateKey := r.privateKey, keyBlinding := k.blinding, key := k.key, shard := k.shard
           inputs, outputs, range, ringIndices := r.ringIndices }

namespace Witness

/-- Checks a request and draws everything that is fixed before the proofs. -/
def ofRequest (gens : Generators P) (r : Request P) : DrawExcept (Witness P) := do
  DrawExcept.ofExcept r.checkBalance
  let outputs ← r.payees.mapM OutputCoin.forPayee
  if r.isPrivate then
    shielded <$> ShieldedWitness.build gens r outputs
  else
    let outputs ← outputs.mapM fun output => (commitOutput gens output : DrawExcept _)
    return transparent ⟨r.privateKey, r.inputs, outputs⟩

/-- The outputs as committed, before their details are encrypted. -/
def outputs : Witness P → List (OutputCoin P)
  | transparent w => w.outputs
  | shielded w => w.outputs.map ShieldedOutput.output

/-- The key that signs the payment: without blinding for a transparent payment, with that of the
key commitment for a private one. -/
def signingKey : Witness P → SigningKey
  | transparent w => ⟨w.privateKey, 0⟩
  | shielded w => ⟨w.privateKey, w.keyBlinding⟩

end Witness

/-! ## Proving -/

/-- Proves that the serial number of a transparent input is right. -/
def TransparentWitness.proveSerial (gens : Generators P) (w : TransparentWitness P)
    (coin : Coin P) : Draw (SerialNumber.Revealed.Proof P) :=
  SerialNumber.Revealed.prove gens
    ⟨coin.serialNumber, w.privateKey • gens.privateKey, coin.derivator⟩ w.privateKey

/-- Makes the proofs of a transparent payment. -/
def TransparentWitness.prove (gens : Generators P) (w : TransparentWitness P) :
    Draw (Proof P) := do
  let revealedSerials ← w.inputs.mapM (w.proveSerial gens)
  return { revealedSerials, inputs := w.inputs, outputs := w.outputs }

namespace ShieldedWitness

/-- What the serial number proof of an input is about. -/
def serialStatement (w : ShieldedWitness P) (input : ShieldedInput P) :
    SerialNumber.Hidden.Statement P :=
  ⟨input.coin.serialNumber, w.key, input.derivator⟩

/-- The openings behind the serial number proof of an input. -/
def serialWitness (w : ShieldedWitness P) (input : ShieldedInput P) :
    SerialNumber.Hidden.Witness :=
  ⟨w.privateKey, w.keyBlinding, input.coin.derivator, input.derivatorBlinding⟩

/-- The payment with given proofs and encrypted outputs. -/
def assemble (w : ShieldedWitness P) (memberships : List (Membership.Proof P))
    (hiddenSerials : List (SerialNumber.Hidden.Proof P)) (range : RangeProof.Proof P)
    (outputs : List (OutputCoin P)) : Proof P where
  memberships := memberships
  hiddenSerials := hiddenSerials
  range := some range
  inputs := w.inputs.map fun input => input.coin.strip
  outputs := outputs
  outputValues := w.outputs.map ShieldedOutput.value
  outputDerivators := w.outputs.map ShieldedOutput.derivator
  outputShards := w.outputs.map ShieldedOutput.shard
  key := some w.key
  inputValues := w.inputs.map ShieldedInput.value
  inputDerivators := w.inputs.map ShieldedInput.derivator
  inputShard := some w.shard
  ringIndices := w.ringIndices

/-- Makes the proofs of a private payment and encrypts its outputs. -/
def prove (gens : Generators P) (table : GeneratorTable P) (w : ShieldedWitness P) :
    DrawExcept (Proof P) := do
  let memberships ← w.inputs.mapM fun input =>
    (input.membership.prove gens : DrawExcept _)
  let hiddenSerials ← w.inputs.mapM fun input =>
    (SerialNumber.Hidden.prove gens (w.serialStatement input) (w.serialWitness input) :
      DrawExcept _)
  let range ← w.range.prove gens table
  let outputs ← w.outputs.mapM fun o => o.output.encrypt gens o.transmissionKey
  return w.assemble memberships hiddenSerials range outputs

end ShieldedWitness

/-- Makes the proofs of a payment. -/
def Witness.prove (gens : Generators P) (table : GeneratorTable P) : Witness P →
    DrawExcept (Proof P)
  | transparent w => w.prove gens
  | shielded w => w.prove gens table

end ConfidentialPayment.Payment
