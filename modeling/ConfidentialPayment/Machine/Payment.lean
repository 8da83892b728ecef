import ConfidentialPayment.Machine
import ConfidentialPayment.Payment.Witness

/-!
# ConfidentialPayment.Machine.Payment

Witnesses of payments on the machine.

The lists of a request come from outside, and nothing but the checks says how long they are. Here
the numbers of inputs and outputs are words, the positions of a private payment are looked up by the
number of the input, and the members of the rings and their ledger numbers by positions, so a
missing check would show as a fault. Lists whose length is fixed, such as the generators, are read
as elsewhere.
-/

namespace ConfidentialPayment

/-- A computation on the machine that draws random bytes. -/
abbrev DrawMachine := ExceptT Stop Draw

namespace DrawMachine

variable {α : Type}

/-- A computation that draws nothing. -/
def ofMachine (computation : Machine α) : DrawMachine α := ExceptT.mk (pure computation)

/-- A program that cannot fault. -/
def ofDrawExcept (program : DrawExcept α) : DrawMachine α :=
  ExceptT.mk (Machine.ofExcept <$> program.run)

/-- What the computation ends with on a tape. -/
def outcome (computation : DrawMachine α) (tape : RandomSource) : Machine α :=
  (Id.run (computation.run.run tape)).1

end DrawMachine

namespace Machine

open DrawMachine Payment

variable {P : Type} [Suite P]

/-! ## Inputs -/

/-- Refuses rings or positions that do not fit the number of inputs. -/
def checkRings (r : Request P) : Machine Unit := do
  let inputs := r.inputs.length
  let members ← mul inputs Membership.ringSize
  if r.ring.length ≠ members then refuse (.ringSizeMismatch r.ring.length members)
  if r.ringIndices.length ≠ members then refuse (.ringSizeMismatch r.ringIndices.length members)
  if r.positions.length ≠ inputs then refuse (.lengthMismatch inputs r.positions.length)

/-- The position of input `i` in its ring, which has to have the coin there. A refusal names the
member by its ledger number. -/
def findInRing (r : Request P) (i : Nat) (coin : Coin P) (ring : List P) : Machine Nat := do
  let position ← get r.positions i
  if position ≥ Membership.ringSize then
    refuse (.ringIndexOutOfRange position Membership.ringSize)
  let member ← get ring position
  if member ≠ coin.commitment then
    let number ← get r.ringIndices (← add (← mul i Membership.ringSize) position)
    refuse (.unknownCommitment number.toNat)
  return position

/-- Checks input `i` against its ring and blinds it. -/
def shieldInput (gens : Generators P) (k : InputKey P) (r : Request P) (i : Nat) (coin : Coin P)
    (ring : List P) : DrawMachine (ShieldedInput P) := do
  let position ← ofMachine (findInRing r i coin ring)
  let valueBlinding ← RandomSource.scalar
  let derivatorBlinding ← RandomSource.scalar
  let input : RingInput P := { coin, ring, indices := [], position }
  ofMachine (ofExcept (shieldInputWith gens k input valueBlinding derivatorBlinding))

/-- The inputs with the rings cut out for them, numbered from zero. -/
def numberedInputs (r : Request P) : List ((Coin P × List P) × Nat) :=
  (r.inputs.zip (Bytes.chunks Membership.ringSize r.ring)).zipIdx

/-! ## Outputs -/

/-- The blinding of output `i` out of `count` and what remains for the outputs after it: the last
one has what remains, and the others draw theirs. -/
def drawBlinding (count i : Nat) (remaining : Scalar) : DrawMachine (Scalar × Scalar) := do
  if (← ofMachine (add i 1)) = count then return (remaining, remaining)
  let blinding ← RandomSource.scalar
  return (blinding, remaining - blinding)

/-- Blinds the outputs from number `i` on, out of `count`. -/
def shieldOutputs (gens : Generators P) (count : Nat) :
    Nat → Scalar → List (OutputCoin P × P) → DrawMachine (List (ShieldedOutput P))
  | _, _, [] => pure []
  | i, remaining, (output, transmissionKey) :: rest => do
    let (blinding, remaining) ← drawBlinding count i remaining
    let others ← shieldOutputs gens count (i + 1) remaining rest
    return shieldOutputWith gens output transmissionKey blinding :: others

/-! ## Witnesses -/

/-- Hides the inputs in their rings and blinds the outputs. -/
def buildShielded (gens : Generators P) (r : Request P) (outputs : List (OutputCoin P)) :
    DrawMachine (ShieldedWitness P) := do
  ofMachine (checkRings r)
  let k ← InputKey.draw gens r.privateKey
  let inputs ← (numberedInputs r).mapM fun ((coin, ring), i) => shieldInput gens k r i coin ring
  let remaining := Scalar.sum (inputs.map ShieldedInput.valueBlinding)
  let targets := outputs.zip (r.payees.map Payee.transmissionKey)
  let outputs ← shieldOutputs gens targets.length 0 remaining targets
  let coins := outputs.map fun o => o.output.coin
  let range ← ofMachine <| ofExcept <|
    RangeProof.Witness.make (coins.map Coin.value) (coins.map Coin.blinding)
  return { privateKey := r.privateKey, keyBlinding := k.blinding, key := k.key, shard := k.shard
           inputs, outputs, range, ringIndices := r.ringIndices }

/-- Checks a request and draws everything that is fixed before the proofs. -/
def buildWitness (gens : Generators P) (r : Request P) : DrawMachine (Witness P) := do
  ofMachine (ofExcept r.checkBalance)
  let outputs ← ofDrawExcept (r.payees.mapM OutputCoin.forPayee)
  if r.isPrivate then
    Witness.shielded <$> buildShielded gens r outputs
  else
    let outputs ← outputs.mapM fun output => (commitOutput gens output : DrawMachine _)
    return .transparent ⟨r.privateKey, r.inputs, outputs⟩

end Machine

end ConfidentialPayment
