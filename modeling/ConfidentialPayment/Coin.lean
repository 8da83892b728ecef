import ConfidentialPayment.Pedersen

/-!
# ConfidentialPayment.Coin

Coins.

A coin belongs to a public key, lives in the shard of that key, and carries a value. Its commitment
is `publicKey + Commit(0, value, derivator, shard, blinding)`, and its serial number, which is
revealed when it is spent, is the private key generator divided by the sum of private key and
derivator. Every field may be blank: the neutral point, zero, or the empty string.
-/

namespace ConfidentialPayment

/-- The number of shards. -/
def shardCount : Nat := 8

/-- The shard of the account with a public key: the last byte of its encoding modulo the number of
shards. -/
def shardOf {P : Type} [Suite P] (publicKey : P) : Nat :=
  ((Suite.encode publicKey).getLastD 0).toNat % shardCount

/-- The base point divided by the sum of a private key and a derivator. -/
def deriveSerial {P : Type} [Suite P] (base : P) (privateKey derivator : Scalar) :
    Except Error P :=
  match (privateKey + derivator).inverse? with
  | some inverse => .ok (inverse • base)
  | none => .error .invalidScalar

/-- A coin. -/
structure Coin (P : Type) where
  publicKey : P
  commitment : P
  derivator : Scalar
  serialNumber : P
  blinding : Scalar
  value : UInt64
  info : Bytes

namespace Coin

variable {P : Type} [Suite P]

instance : DecidableEq (Coin P) := fun a b =>
  decidable_of_iff
    (a.publicKey = b.publicKey ∧ a.commitment = b.commitment ∧ a.derivator = b.derivator ∧
      a.serialNumber = b.serialNumber ∧ a.blinding = b.blinding ∧ a.value = b.value ∧
      a.info = b.info)
    ⟨fun h => by cases a; cases b; simp_all, fun h => h ▸ ⟨rfl, rfl, rfl, rfl, rfl, rfl, rfl⟩⟩

/-- The coin with every field blank. -/
def blank : Coin P := ⟨0, 0, 0, 0, 0, 0, []⟩

/-- A coin of an owner with neither commitment nor serial number nor info. -/
def uncommitted (publicKey : P) (derivator blinding : Scalar) (value : UInt64) : Coin P :=
  { (blank : Coin P) with publicKey, derivator, blinding, value }

/-- The longest info of a coin. -/
def maxInfoLength : Nat := 255

/-- The coin with another info. -/
def withInfo (coin : Coin P) (info : Bytes) : Except Error (Coin P) :=
  if info.length > maxInfoLength then .error (.infoTooLong info.length)
  else .ok { coin with info }

/-- The shard of the coin's owner. -/
def shard (coin : Coin P) : Nat := shardOf coin.publicKey

/-- The attributes that the commitment binds beside the public key. -/
def opening (coin : Coin P) : Opening where
  privateKey := 0
  value := .ofUInt64 coin.value
  derivator := coin.derivator
  shard := .ofNat coin.shard
  blinding := coin.blinding

/-- The commitment that the other fields imply. -/
def expectedCommitment (gens : Generators P) (coin : Coin P) : P :=
  coin.publicKey + gens.commit coin.opening

/-- The coin with the commitment that its other fields imply. -/
def commit (gens : Generators P) (coin : Coin P) : Coin P :=
  { coin with commitment := coin.expectedCommitment gens }

/-- Whether the commitment is the one that the other fields imply. -/
def isCommitted (gens : Generators P) (coin : Coin P) : Bool :=
  coin.expectedCommitment gens = coin.commitment

/-- The coin with the serial number that a private key gives it. -/
def withSerial (gens : Generators P) (privateKey : Scalar) (coin : Coin P) :
    Except Error (Coin P) := do
  let serialNumber ← deriveSerial gens.privateKey privateKey coin.derivator
  return { coin with serialNumber }

/-- The coin with nothing but its serial number, as a private payment shows what it spends. -/
def strip (coin : Coin P) : Coin P := { (blank : Coin P) with serialNumber := coin.serialNumber }

end Coin

end ConfidentialPayment
