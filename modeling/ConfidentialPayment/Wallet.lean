import ConfidentialPayment.Ledger.Indexed
import ConfidentialPayment.Payment.Encoding
import ConfidentialPayment.Payment.Verification
import ConfidentialPayment.Payment.Witness

/-!
# ConfidentialPayment.Wallet

A wallet in front of a ledger.

The wallet owns coins, each in a numbered slot, and it holds the payment that it made or was handed
last, as bytes. It mints coins, pays with coins that it owns, signs, checks the payment at hand
against the ledger, and takes outputs of it into its slots.

An `Operation` is what a wallet can be asked for, and `Operation.runAll` does several things one
after the other. An operation that fails leaves the wallet as it was; the random bytes it drew stay
drawn.
-/

namespace ConfidentialPayment

/-- A ledger, the coins that are owned, the last payment that was made, and the encoding of the
payment at hand. -/
structure Wallet (P : Type) where
  ledger : Ledger.Indexed P
  coins : Array (Coin P)
  made : Option (Payment.Witness P)
  current : Bytes

namespace Wallet

/-- Why a wallet refuses to do something. -/
inductive Failure
  | refused (cause : Error)
  | noSuchSlot
  | noSuchOutput
  | pastTheEnd
  | noPayment
deriving DecidableEq, Repr

/-- A program that draws random bytes and may fail as wallets do. -/
abbrev DrawOr := ExceptT Failure Draw

/-- Passes on a result that needs no random bytes. -/
def passOn {α : Type} (result : Except Failure α) : DrawOr α := ExceptT.mk (pure result)

/-- A program of the library inside a wallet. -/
def attempt {α : Type} (program : DrawExcept α) : DrawOr α := ExceptT.adapt .refused program

/-- Where a coin went: its number on the ledger, its slot, and the coin. -/
structure Receipt (P : Type) where
  index : Nat
  slot : Nat
  coin : Coin P

variable {P : Type}

/-- The wallet in front of an empty ledger. -/
def empty : Wallet P := ⟨.empty, #[], none, []⟩

/-- The coin in a slot. -/
def coinAt (w : Wallet P) (slot : Nat) : Except Failure (Coin P) :=
  match w.coins[slot]? with
  | some coin => .ok coin
  | none => .error .noSuchSlot

/-- Takes another payment at hand. -/
def load (w : Wallet P) (current : Bytes) : Wallet P := { w with current }

/-- Flips bits of one byte of the payment at hand. -/
def flip (w : Wallet P) (place : Nat) (mask : UInt8) : Except Failure (Wallet P) :=
  if place < w.current.length then
    .ok { w with current := w.current.modify place (· ^^^ mask) }
  else
    .error .pastTheEnd

variable [Suite P]

/-- Appends the commitment of a coin to the ledger and puts the coin into a new slot. -/
def keep (w : Wallet P) (coin : Coin P) : Receipt P × Wallet P :=
  let (index, ledger) := w.ledger.push coin.commitment
  (⟨index, w.coins.size, coin⟩, { w with ledger, coins := w.coins.push coin })

/-- Appends a commitment that is not owned to the ledger. -/
def observe (w : Wallet P) (commitment : P) : Nat × Wallet P :=
  let (index, ledger) := w.ledger.push commitment
  (index, { w with ledger })

/-- A coin of an account with fresh derivator and blinding. -/
def mintCoin (gens : Generators P) (privateKey : Scalar) (value : UInt64) (info : Bytes) :
    DrawExcept (Coin P) := do
  let derivator ← RandomSource.scalar
  let blinding ← RandomSource.scalar
  let coin := Coin.uncommitted (privateKey • gens.privateKey) derivator blinding value
  let coin ← DrawExcept.ofExcept (coin.withInfo info)
  DrawExcept.ofExcept ((coin.commit gens).withSerial gens privateKey)

/-- Mints a coin and keeps it. -/
def mint (gens : Generators P) (privateKey : Scalar) (value : UInt64) (info : Bytes)
    (w : Wallet P) : DrawOr (Receipt P × Wallet P) :=
  w.keep <$> attempt (mintCoin gens privateKey value info)

/-- The ledger commitments with given numbers, neutral where there is none. -/
def commitmentsAt (w : Wallet P) (indices : List UInt64) : List P :=
  indices.map fun index => (w.ledger.get? index.toNat).getD 0

/-- Makes a payment and takes it at hand. -/
def pay (gens : Generators P) (table : GeneratorTable P) (request : Payment.Request P)
    (w : Wallet P) : DrawOr (Payment.Witness P × Payment.Proof P × Wallet P) := attempt do
  let witness ← Payment.Witness.ofRequest gens request
  let proof ← witness.prove gens table
  return (witness, proof, { w with made := some witness, current := proof.toBytes })

/-- The payment at hand. -/
def currentProof (w : Wallet P) : Except Error (Payment.Proof P) :=
  Payment.Proof.ofBytes w.current

/-- Signs the payment at hand with the key of the last payment that was made. -/
def sign (gens : Generators P) (w : Wallet P) : DrawOr (SigningKey × Digest × Signature) := do
  match w.made with
  | none => throw .noPayment
  | some witness =>
    let proof ← attempt (DrawExcept.ofExcept w.currentProof)
    let key := witness.signingKey
    let signature ← attempt (Signature.sign gens key proof.digest : Draw _)
    return (key, proof.digest, signature)

/-- Checks the payment at hand against the ledger. -/
def verify (gens : Generators P) (table : GeneratorTable P) (isPrivate : Bool) (fee : UInt64)
    (w : Wallet P) : DrawExcept Unit := do
  let proof ← DrawExcept.ofExcept w.currentProof
  proof.verify gens table w.ledger.view isPrivate fee

/-- The coin of an output, recovered with a receiving key if one is given. -/
def coinOf (gens : Generators P) (receivingKey : Option Scalar) (output : OutputCoin P) :
    Except Error (Coin P) :=
  match receivingKey with
  | some key => output.decrypt gens key
  | none => .ok output.coin

/-- Takes the coin of an output of the payment at hand and keeps it under the serial number that the
private key gives it. -/
def receive (gens : Generators P) (output : Nat) (privateKey : Scalar)
    (receivingKey : Option Scalar) (w : Wallet P) : Except Failure (Receipt P × Wallet P) := do
  let proof ← w.currentProof.mapError .refused
  match proof.outputs[output]? with
  | none => throw .noSuchOutput
  | some output =>
    let coin ← (coinOf gens receivingKey output >>= Coin.withSerial gens privateKey).mapError
      .refused
    return w.keep coin

/-! ## Operations -/

/-- What a wallet can be asked for. -/
inductive Operation (P : Type)
  | load (current : Bytes)
  | flip (place : Nat) (mask : UInt8)
  | observe (commitment : P)
  | mint (privateKey : Scalar) (value : UInt64) (info : Bytes)
  | pay (request : Payment.Request P)
  | sign
  | verify (isPrivate : Bool) (fee : UInt64)
  | receive (output : Nat) (privateKey : Scalar) (receivingKey : Option Scalar)

namespace Operation

/-- The wallet after an operation that succeeds. -/
def apply (gens : Generators P) (table : GeneratorTable P) (w : Wallet P) :
    Operation P → DrawOr (Wallet P)
  | load current => passOn (.ok (w.load current))
  | flip place mask => passOn (w.flip place mask)
  | observe commitment => passOn (.ok (w.observe commitment).2)
  | mint privateKey value info => Prod.snd <$> w.mint gens privateKey value info
  | pay request => (fun (_, _, after) => after) <$> w.pay gens table request
  | sign => (fun _ => w) <$> w.sign gens
  | verify isPrivate fee => (fun _ => w) <$> attempt (w.verify gens table isPrivate fee)
  | receive output privateKey receivingKey =>
    Prod.snd <$> passOn (w.receive gens output privateKey receivingKey)

/-- Does what a wallet is asked for: the result, and the wallet after it. -/
def run (gens : Generators P) (table : GeneratorTable P) (w : Wallet P)
    (operation : Operation P) : Draw (Except Failure Unit × Wallet P) := do
  match ← (operation.apply gens table w).run with
  | .ok after => return (.ok (), after)
  | .error cause => return (.error cause, w)

/-- The wallet after all operations of a list, whether or not they fail. -/
def runAll (gens : Generators P) (table : GeneratorTable P) (operations : List (Operation P))
    (w : Wallet P) : Draw (Wallet P) :=
  operations.foldlM (fun w operation => Prod.snd <$> operation.run gens table w) w

end Operation

end Wallet

end ConfidentialPayment
