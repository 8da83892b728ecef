import ConfidentialPayment.Coin.Output

/-!
# ConfidentialPayment.Coin.Update

Changing an output where it is.

Whoever holds an output writes its fields one after the other. A program that does so may fail on
the way, and what it has written before stays written.

1. `Update P` is a program that changes an output, draws random bytes, and may fail.
2. An `Operation` is what can be done to an output: its public fields are assigned, or one of the
   programs runs that set its info, commit to its coin, derive its serial number, strip it, encrypt
   or decrypt it, or read it back from its encoding.
3. `Operation.runAll` runs operations one after the other, whether or not they fail.
-/

namespace ConfidentialPayment

/-- A program that changes an output, draws random bytes, and may fail; then what it has changed
stays changed, and what it has drawn stays drawn. -/
abbrev Update (P : Type) := ExceptT Error (StateT (OutputCoin P) Draw)

namespace Update

variable {P : Type} {α : Type}

/-! ## Steps -/

/-- Runs a program that changes nothing. -/
def ofDraw (program : DrawExcept α) : Update P α := ExceptT.mk (liftM program.run)

/-- Passes on a result. -/
def ofExcept (result : Except Error α) : Update P α := ofDraw (.ofExcept result)

/-- Writes to the coin. -/
def writeCoin (write : Coin P → Coin P) : Update P Unit :=
  modify fun output => { output with coin := write output.coin }

/-! ## Programs -/

/-- Sets the info, unless it is too long. -/
def setInfo (info : Bytes) : Update P Unit := do
  if info.length > Coin.maxInfoLength then throw (.infoTooLong info.length)
  writeCoin fun coin => { coin with info }

variable [Suite P]

/-- Sets the commitment that the other fields imply. -/
def commit (gens : Generators P) : Update P Unit := do
  let output : OutputCoin P ← get
  let commitment := output.coin.expectedCommitment gens
  writeCoin fun coin => { coin with commitment }

/-- Sets the serial number that a private key gives to the coin. -/
def setSerial (gens : Generators P) (privateKey : Scalar) : Update P Unit := do
  let output : OutputCoin P ← get
  let serialNumber ← ofExcept (deriveSerial gens.privateKey privateKey output.coin.derivator)
  writeCoin fun coin => { coin with serialNumber }

/-- Blanks everything but the serial number. -/
def strip : Update P Unit := do
  let output : OutputCoin P ← get
  let serialNumber := output.coin.serialNumber
  writeCoin fun _ => { Coin.blank with serialNumber }

/-- Encrypts the details to a transmission key, and then clears them. -/
def encrypt (gens : Generators P) (transmissionKey : P) : Update P Unit := do
  let output : OutputCoin P ← get
  let details := OutputCoin.details output.coin
  let ciphertext ← ofDraw (Hybrid.encrypt gens transmissionKey details)
  modify fun output => { output with ciphertext }
  writeCoin fun coin => { coin with blinding := 0 }
  writeCoin fun coin => { coin with value := 0 }

/-- Replaces the coin by the one that a receiving key recovers. -/
def decrypt (gens : Generators P) (receivingKey : Scalar) : Update P Unit := do
  let output : OutputCoin P ← get
  let coin ← ofExcept (output.decrypt gens receivingKey)
  writeCoin fun _ => coin

/-- Replaces the coin by what is read from its encoding. -/
def reloadCoin : Update P Unit := do
  let output : OutputCoin P ← get
  let coin ← ofExcept (Coin.ofBytes output.coin.toBytes)
  writeCoin fun _ => coin

/-- Replaces the output by what is read from its encoding. -/
def reload : Update P Unit := do
  let output : OutputCoin P ← get
  let read : OutputCoin P ← ofExcept (OutputCoin.ofBytes output.toBytes)
  set read

end Update

/-- A value for a public field. The info of a coin is none. -/
inductive Assignment (P : Type)
  | publicKey (p : P)
  | commitment (p : P)
  | derivator (x : Scalar)
  | serialNumber (p : P)
  | blinding (x : Scalar)
  | value (v : UInt64)
  | coin (coin : Coin P)
  | ciphertext (ciphertext : Hybrid.Ciphertext P)

/-- Assigns a field. -/
def Assignment.write {P : Type} (output : OutputCoin P) : Assignment P → OutputCoin P
  | .publicKey p => { output with coin := { output.coin with publicKey := p } }
  | .commitment p => { output with coin := { output.coin with commitment := p } }
  | .derivator x => { output with coin := { output.coin with derivator := x } }
  | .serialNumber p => { output with coin := { output.coin with serialNumber := p } }
  | .blinding x => { output with coin := { output.coin with blinding := x } }
  | .value v => { output with coin := { output.coin with value := v } }
  | .coin c => { output with coin := c }
  | .ciphertext c => { output with ciphertext := c }

/-- What can be done to an output. -/
inductive Operation (P : Type)
  | assign (assignment : Assignment P)
  | setInfo (info : Bytes)
  | commit (gens : Generators P)
  | setSerial (gens : Generators P) (privateKey : Scalar)
  | strip
  | encrypt (gens : Generators P) (transmissionKey : P)
  | decrypt (gens : Generators P) (receivingKey : Scalar)
  | reloadCoin
  | reload

namespace Operation

variable {P : Type} [Suite P]

/-- The program of an operation. -/
def program : Operation P → Update P Unit
  | assign assignment => modify fun output => assignment.write output
  | setInfo info => Update.setInfo info
  | commit gens => Update.commit gens
  | setSerial gens privateKey => Update.setSerial gens privateKey
  | strip => Update.strip
  | encrypt gens transmissionKey => Update.encrypt gens transmissionKey
  | decrypt gens receivingKey => Update.decrypt gens receivingKey
  | reloadCoin => Update.reloadCoin
  | reload => Update.reload

/-- Runs an operation: its result, and the output after it. -/
def run (operation : Operation P) (output : OutputCoin P) :
    Draw (Except Error Unit × OutputCoin P) :=
  (operation.program.run).run output

/-- The output and the tape after all operations of a list. -/
def runAll (operations : List (Operation P)) (output : OutputCoin P) : Draw (OutputCoin P) :=
  operations.foldlM (fun output operation => Prod.snd <$> operation.run output) output

end Operation

end ConfidentialPayment
