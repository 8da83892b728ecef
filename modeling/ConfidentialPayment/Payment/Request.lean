import ConfidentialPayment.Payment.Proof

/-!
# ConfidentialPayment.Payment.Request

What a sender asks for: coins to spend, payees and a fee, and for a private payment the rings that
the coins hide in.

The rings are given as one list of commitments with one list of their ledger numbers, eight of
each for every input, and the position of every input in its ring. A transparent payment ignores
all three lists.
-/

namespace ConfidentialPayment.Payment

/-- A payment to be made. -/
structure Request (P : Type) where
  isPrivate : Bool
  privateKey : Scalar
  inputs : List (Coin P)
  payees : List (Payee P)
  ring : List P
  ringIndices : List UInt64
  positions : List Nat
  fee : UInt64

/-- An input with the ring that it hides in. -/
structure RingInput (P : Type) where
  coin : Coin P
  ring : List P
  indices : List UInt64
  position : Nat

namespace Request

variable {P : Type}

/-- Refuses a payment without inputs or outputs, with too many of either, or whose amounts do not
balance as integers. -/
def checkBalance (r : Request P) : Except Error Unit := do
  let inputs := r.inputs.length
  let outputs := r.payees.length
  if inputs = 0 ∨ outputs = 0 then throw .emptyInput
  if inputs > maxInputs then throw (.tooManyInputs inputs maxInputs)
  if outputs > maxOutputs then throw (.tooManyOutputs outputs maxOutputs)
  let spent ← Amount.total (r.inputs.map Coin.value)
  let paid ← Amount.total (r.payees.map Payee.amount)
  if (← Amount.add paid r.fee) ≠ spent then throw .unbalanced

/-- Refuses rings or positions that do not fit the number of inputs. -/
def checkRings (r : Request P) : Except Error Unit :=
  let inputs := r.inputs.length
  let members := inputs * Membership.ringSize
  if r.ring.length ≠ members then .error (.ringSizeMismatch r.ring.length members)
  else if r.ringIndices.length ≠ members then
    .error (.ringSizeMismatch r.ringIndices.length members)
  else if r.positions.length ≠ inputs then .error (.lengthMismatch inputs r.positions.length)
  else .ok ()

/-- Every input with its ring. -/
def ringInputs (r : Request P) : List (RingInput P) :=
  let rings := Bytes.chunks Membership.ringSize r.ring
  let indices := Bytes.chunks Membership.ringSize r.ringIndices
  (r.inputs.zip (rings.zip (indices.zip r.positions))).map fun (coin, ring, indices, position) =>
    ⟨coin, ring, indices, position⟩

end Request

/-- Refuses a position outside the ring, and then a ring that has another commitment there. -/
def RingInput.check {P : Type} [DecidableEq P] (input : RingInput P) : Except Error Unit :=
  if input.position ≥ Membership.ringSize then
    .error (.ringIndexOutOfRange input.position Membership.ringSize)
  else if input.ring[input.position]? = some input.coin.commitment then .ok ()
  else .error (.unknownCommitment (input.indices.getD input.position 0).toNat)

end ConfidentialPayment.Payment
