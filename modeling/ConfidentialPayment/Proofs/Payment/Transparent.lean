import ConfidentialPayment.Proofs.Payment.Completeness
import ConfidentialPayment.Proofs.Payment.Repetition

/-!
# ConfidentialPayment.Proofs.Payment.Transparent

Transparent payments conserve value.

1. `Proof.Transfers` says without any reference to a verifier what a transparent payment has to be:
   coins of the ledger that their owner spends, each once, for new coins of the same value less the
   fee.
2. `Proof.verify_transparent_iff`: verifiers accept these payments and no others.
-/

namespace ConfidentialPayment.Payment

variable {P : Type} [Suite P] {gens : Generators P} {ledger : Ledger.View P} {fee : UInt64}
  {proof : Proof P}

/-- A transparent payment of coins of a ledger with a given fee. -/
structure Proof.Transfers (gens : Generators P) (ledger : Ledger.View P) (fee : UInt64)
    (proof : Proof P) : Prop where
  inputs : 1 ≤ proof.inputs.length
  outputs : 1 ≤ proof.outputs.length
  serialNumbers : (proof.inputs.map Coin.serialNumber).Pairwise (· ≠ ·)
  revealedSerials : proof.revealedSerials.length = proof.inputs.length
  memberships : proof.memberships = []
  hiddenSerials : proof.hiddenSerials = []
  range : proof.range = none
  spent : ∀ (i : ℕ) (coin : Coin P) (serial : SerialNumber.Revealed.Proof P),
    proof.inputs[i]? = some coin → proof.revealedSerials[i]? = some serial →
      coin.isCommitted gens = true ∧ ledger.contains coin.commitment = true ∧
        serial.verify gens ⟨coin.serialNumber, coin.publicKey, coin.derivator⟩ = .ok ()
  created : ∀ output ∈ proof.outputs, output.coin.isCommitted gens = true
  balance : (proof.inputs.map fun coin => coin.value.toNat).sum =
    fee.toNat + (proof.outputs.map fun output => output.coin.value.toNat).sum
  bound : (proof.inputs.map fun coin => coin.value.toNat).sum < 2 ^ 64

/-- The checks of a verifier, put together. -/
theorem Proof.transfers_iff (hencode : Function.Injective (Suite.encode : P → Bytes)) :
    proof.Transfers gens ledger fee ↔
      proof.checkCoins = .ok () ∧ proof.verifyTransparent gens ledger fee = .ok () := by
  rw [checkCoins_eq_ok_iff, repeatsSerialNumber_eq_false_iff hencode, verifyTransparent_eq_ok_iff,
    isTransparent_iff, forall_mem_zip_iff, totalValue, totalValue, List.map_map]
  constructor
  · intro h
    exact ⟨⟨List.length_pos_iff.mp h.inputs, List.length_pos_iff.mp h.outputs, h.serialNumbers⟩,
      ⟨h.revealedSerials, h.memberships, h.hiddenSerials, h.range⟩,
      fun i coin serial hcoin hserial =>
        have hspent := h.spent i coin serial hcoin hserial
        ⟨hspent.1, hspent.2.1, hspent.2.2⟩,
      h.created, h.bound, h.balance⟩
  · rintro ⟨⟨hinputs, houtputs, hserials⟩, ⟨hrevealed, hmemberships, hhidden, hrange⟩, hspent,
      hcreated, hbound, hbalance⟩
    exact
      { inputs := List.length_pos_iff.mpr hinputs
        outputs := List.length_pos_iff.mpr houtputs
        serialNumbers := hserials
        revealedSerials := hrevealed
        memberships := hmemberships
        hiddenSerials := hhidden
        range := hrange
        spent := fun i coin serial hcoin hserial =>
          have h := hspent i coin serial hcoin hserial
          ⟨h.committed, h.known, h.serial⟩
        created := hcreated
        balance := hbalance
        bound := hbound }

/-- A transparent payment is accepted exactly if it transfers coins of the ledger, whatever is
drawn. The sums that are compared are those of the integers: whatever the coins are, a total that
comes out has not wrapped. -/
theorem Proof.verify_transparent_iff (hencode : Function.Injective (Suite.encode : P → Bytes))
    (gens : Generators P) (table : GeneratorTable P) (ledger : Ledger.View P) (fee : UInt64)
    (proof : Proof P) :
    (∀ tape, (proof.verify gens table ledger false fee).outcome tape = .ok () ↔
      proof.Transfers gens ledger fee) ∧
    (∀ total inputs sum, spendRevealed gens ledger total inputs = .ok sum →
      sum.toNat = total.toNat + (inputs.map fun input => input.1.value.toNat).sum) ∧
    (∀ total outputs sum, createRevealed gens total outputs = .ok sum →
      sum.toNat = total.toNat + (outputs.map fun output => output.coin.value.toNat).sum) := by
  refine ⟨fun tape => ?_, fun total inputs sum h => ?_, fun total outputs sum h => ?_⟩
  · simp only [transfers_iff hencode, DrawExcept.outcome_eq_ok_iff, gives_verify,
      Bool.false_eq_true, if_false, exists_and_left, exists_eq', and_true]
  · rw [(spendRevealed_eq_ok_iff.mp h).2, totalValue, List.map_map]
    rfl
  · rw [(createRevealed_eq_ok_iff.mp h).2, totalValue, List.map_map]
    rfl

/-- The first coin of the ideal ledger can be handed on without a fee. The payment is not accepted
for any other fee. -/
theorem Proof.verify_transparent_iff_ideal :
    let table := GeneratorTable.neutral Opening 128
    let ledger := Request.idealLedger.view
    ∃ proof : Proof Opening, proof.Transfers .ideal ledger 0 ∧
      ∀ fee tape, (proof.verify .ideal table ledger false fee).outcome tape = .ok () ↔ fee = 0 := by
  intro table ledger
  have hfirst : (firstCoin .ideal).IsGenuine .ideal 3 := isGenuine_firstCoin .ideal
  let output : OutputCoin Opening := .plain (firstCoin .ideal)
  obtain ⟨proof, hinputs, houtputs, haccepted⟩ := TransparentWitness.exists_single table ledger
    hfirst (by decide) (show output.coin.isCommitted .ideal = true from hfirst.committed) rfl
  have htransfers : proof.Transfers .ideal ledger 0 := by
    obtain ⟨⟨⟩, rest, hrun, -⟩ := haccepted ⟨fun _ => .replicate 64 0, 0⟩
    exact ((verify_transparent_iff Suite.encode_injective_ideal .ideal table ledger 0 proof).1 _).mp
      (DrawExcept.outcome_eq_ok_iff.mpr ⟨rest, hrun⟩)
  refine ⟨proof, htransfers, fun fee tape => ?_⟩
  rw [(verify_transparent_iff Suite.encode_injective_ideal .ideal table ledger fee proof).1 tape]
  constructor
  · intro h
    have hfee := h.balance.symm.trans htransfers.balance
    exact UInt64.toNat_inj.mp (Nat.add_right_cancel hfee)
  · rintro rfl
    exact htransfers

end ConfidentialPayment.Payment
