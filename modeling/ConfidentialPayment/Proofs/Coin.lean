import Mathlib.Algebra.Module.Basic
import ConfidentialPayment.Proofs.SerialNumber.Completeness

/-!
# ConfidentialPayment.Proofs.Coin

Coins that their owners can spend.

`Coin.IsGenuine` is what a payment needs of a coin that it spends; `Coin.spendable` makes such a
coin of any key, derivator, blinding and value.
-/

namespace ConfidentialPayment.Coin

variable {P : Type} [Suite P] {gens : Generators P}

/-- A coin with the implied commitment is committed to. -/
theorem isCommitted_commit (coin : Coin P) : (coin.commit gens).isCommitted gens = true :=
  decide_eq_true rfl

/-- A coin that the owner of a private key can spend: it belongs to the key, its commitment binds
its attributes, and it has the serial number that the key gives it. -/
structure IsGenuine (gens : Generators P) (privateKey : Scalar) (coin : Coin P) : Prop where
  publicKey : coin.publicKey = privateKey • gens.privateKey
  committed : coin.isCommitted gens = true
  serialNumber : deriveSerial gens.privateKey privateKey coin.derivator = .ok coin.serialNumber

variable {coin : Coin P}

/-- The info of a coin is free: nothing of what makes the coin genuine depends on it. -/
theorem IsGenuine.withInfo {sk : Scalar} (h : coin.IsGenuine gens sk) (info : Bytes) :
    { coin with info }.IsGenuine gens sk :=
  ⟨h.publicKey, h.committed, h.serialNumber⟩

variable [LawfulGroup P]

/-- A coin is committed exactly if its commitment is the sum of its fields, each on its
generator. -/
theorem isCommitted_iff : coin.isCommitted gens = true ↔
    coin.commitment = coin.publicKey + Scalar.ofUInt64 coin.value • gens.value +
      gens.commitDerivator coin.derivator + gens.commitShard coin.shard +
      coin.blinding • gens.blinding := by
  have hexpected : coin.expectedCommitment gens = coin.publicKey +
      Scalar.ofUInt64 coin.value • gens.value + gens.commitDerivator coin.derivator +
      gens.commitShard coin.shard + coin.blinding • gens.blinding := by
    rw [expectedCommitment, Generators.commit_eq]
    simp only [opening, Generators.commitShard, Generators.commitDerivator]
    module
  rw [isCommitted, decide_eq_true_iff, hexpected, eq_comm]

/-- The serial number of a genuine coin, multiplied by its key and derivator together, is the
generator of private keys. -/
theorem IsGenuine.smul_serialNumber {sk : Scalar} (h : coin.IsGenuine gens sk) :
    (sk + coin.derivator) • coin.serialNumber = gens.privateKey :=
  (deriveSerial_eq_ok_iff.mp h.serialNumber).2

/-- The coin of a private key with given derivator, blinding and value. -/
def spendable (gens : Generators P) (sk derivator blinding : Scalar) (value : UInt64) : Coin P :=
  commit gens { uncommitted (sk • gens.privateKey) derivator blinding value with
    serialNumber := (sk + derivator)⁻¹ • gens.privateKey }

/-- The coins that are made for a private key are genuine. -/
theorem isGenuine_spendable {sk derivator : Scalar} (h : sk + derivator ≠ 0) (blinding : Scalar)
    (value : UInt64) : (spendable gens sk derivator blinding value).IsGenuine gens sk :=
  ⟨rfl, isCommitted_commit _, deriveSerial_eq_ok_iff.mpr ⟨h, smul_inv_smul₀ h _⟩⟩

end ConfidentialPayment.Coin
