import Mathlib.Algebra.Module.Basic
import ConfidentialPayment.Proofs.Payment.Spending

/-!
# ConfidentialPayment.Proofs.Payment.Determinacy

An accepted payment determines its mode and its fee.

Both are given to the verifier next to the payment and are not written in it. The mode is settled by
the lengths of the lists of proofs: a payment with inputs has either membership proofs or none. The
fee is what the balance leaves, as a number for transparent payments and as a multiple of the value
generator for private ones.
-/

namespace ConfidentialPayment.Payment

variable {P : Type} [Suite P] {gens : Generators P} {proof : Proof P} {fee₁ fee₂ : UInt64}

/-! ## Modes -/

omit [Suite P] in
/-- A payment with inputs cannot have the parts of a private and of a transparent one. -/
theorem Proof.HasParts.isTransparent_eq_false {s : Shielding P} (h : proof.HasParts s)
    (hinputs : proof.inputs ≠ []) : proof.isTransparent = false := by
  have hmemberships : proof.memberships ≠ [] := by
    intro hnil
    have hlength := h.memberships
    rw [hnil, List.length_nil] at hlength
    exact hinputs (List.eq_nil_of_length_eq_zero hlength.symm)
  simp [isTransparent, hmemberships]

/-! ## Fees -/

/-- A transparent payment is accepted for no fee but one, whatever the ledger. -/
theorem Proof.fee_eq_of_verifyTransparent {ledger₁ ledger₂ : Ledger.View P}
    (h₁ : proof.verifyTransparent gens ledger₁ fee₁ = .ok ())
    (h₂ : proof.verifyTransparent gens ledger₂ fee₂ = .ok ()) : fee₁ = fee₂ := by
  obtain ⟨-, -, -, -, hbalance₁⟩ := verifyTransparent_eq_ok_iff.mp h₁
  obtain ⟨-, -, -, -, hbalance₂⟩ := verifyTransparent_eq_ok_iff.mp h₂
  refine UInt64.toNat_inj.mp ?_
  omega

/-- As multiples of a generator that is not neutral, fees are different if they are different
numbers, because the order of the group is larger than every fee. -/
theorem Proof.fee_eq_of_isBalanced [LawfulGroup P] (hvalue : gens.value ≠ 0)
    (h₁ : proof.isBalanced gens fee₁ = true) (h₂ : proof.isBalanced gens fee₂ = true) :
    fee₁ = fee₂ := by
  have hmultiples : Scalar.ofUInt64 fee₁ • gens.value = Scalar.ofUInt64 fee₂ • gens.value :=
    add_left_cancel ((isBalanced_iff.mp h₁).symm.trans (isBalanced_iff.mp h₂))
  exact Scalar.ofUInt64_injective (smul_left_injective Scalar hvalue hmultiples)

/-! ## Accepted payments -/

/-- A payment is accepted in one mode and with one fee at most, whatever the ledgers, the tables and
the random bytes of its verifiers are. -/
theorem Proof.mode_and_fee_unique [LawfulGroup P] {table₁ table₂ : GeneratorTable P}
    {ledger₁ ledger₂ : Ledger.View P} {isPrivate₁ isPrivate₂ : Bool}
    {tape₁ rest₁ tape₂ rest₂ : RandomSource} (hvalue : gens.value ≠ 0)
    (h₁ : (proof.verify gens table₁ ledger₁ isPrivate₁ fee₁).Gives tape₁ () rest₁)
    (h₂ : (proof.verify gens table₂ ledger₂ isPrivate₂ fee₂).Gives tape₂ () rest₂) :
    isPrivate₁ = isPrivate₂ ∧ fee₁ = fee₂ := by
  obtain ⟨hcoins, hmode₁⟩ := gives_verify.mp h₁
  obtain ⟨-, hmode₂⟩ := gives_verify.mp h₂
  obtain ⟨hinputs, -⟩ := ne_nil_of_checkCoins hcoins
  cases isPrivate₁ with
  | false =>
    cases isPrivate₂ with
    | false => exact ⟨rfl, fee_eq_of_verifyTransparent hmode₁.1 hmode₂.1⟩
    | true =>
      obtain ⟨s, -, hparts, -⟩ := gives_verifyPrivate.mp hmode₂
      exact absurd (verifyTransparent_eq_ok_iff.mp hmode₁.1).1
        (Bool.eq_false_iff.mp (hparts.isTransparent_eq_false hinputs))
  | true =>
    obtain ⟨s₁, -, hparts, -, -, hchecks₁⟩ := gives_verifyPrivate.mp hmode₁
    cases isPrivate₂ with
    | false =>
      exact absurd (verifyTransparent_eq_ok_iff.mp hmode₂.1).1
        (Bool.eq_false_iff.mp (hparts.isTransparent_eq_false hinputs))
    | true =>
      obtain ⟨s₂, -, -, -, -, hchecks₂⟩ := gives_verifyPrivate.mp hmode₂
      obtain ⟨-, -, -, -, hbalance₁⟩ := verifyShielded_eq_ok_iff.mp hchecks₁
      obtain ⟨-, -, -, -, hbalance₂⟩ := verifyShielded_eq_ok_iff.mp hchecks₂
      exact ⟨rfl, fee_eq_of_isBalanced hvalue hbalance₁ hbalance₂⟩

/-- The private payment of the two coins is accepted as a private one with a fee of 3, and with
nothing else. -/
theorem Proof.mode_and_fee_unique_ideal :
    let table := GeneratorTable.neutral Opening 128
    let ledger := Request.idealLedger.view
    ∃ proof : Proof Opening, (proof.verify .ideal table ledger true 3).Ensures (fun _ => True) ∧
      ∀ isPrivate fee tape rest,
        (proof.verify .ideal table ledger isPrivate fee).Gives tape () rest →
          isPrivate = true ∧ fee = 3 := by
  intro table ledger
  obtain ⟨w, hw⟩ := ShieldedWitness.exists_represents_ideal
  have hprovable := hw.isProvable rfl (Request.isGenuine_twoCoins .ideal true)
  obtain ⟨memberships, hiddenSerials, range, outputs, hp, haccepted⟩ :=
    hprovable.exists_accepted_ideal
  have hcoins := ShieldedWitness.checkCoins_assemble (hw.inputs_ne_nil (List.cons_ne_nil _ _))
    (hw.outputs_ne_nil (List.cons_ne_nil _ _))
    (hw.nodup_serialNumbers (Request.nodup_serialNumber_twoCoins true (by decide))) hp
  have hverify : ((w.assemble memberships hiddenSerials range outputs).verify .ideal table ledger
      true 3).Ensures fun _ => True := by
    intro tape
    obtain ⟨⟨⟩, rest, hrun, -⟩ := haccepted tape
    exact ⟨(), rest, gives_verify.mpr ⟨hcoins, hrun⟩, trivial⟩
  refine ⟨_, hverify, fun isPrivate fee tape rest hrun => ?_⟩
  obtain ⟨⟨⟩, rest', hrun', -⟩ := hverify ⟨fun _ => .replicate 64 0, 0⟩
  have hvalue : Generators.ideal.value ≠ 0 := by decide
  exact mode_and_fee_unique hvalue hrun hrun'

end ConfidentialPayment.Payment
