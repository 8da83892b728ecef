import Mathlib.Algebra.Module.Basic
import Mathlib.Algebra.Order.BigOperators.Group.List
import ConfidentialPayment.Proofs.Payment.Completeness
import ConfidentialPayment.Proofs.Payment.Spending

/-!
# ConfidentialPayment.Proofs.Payment.Conservation

Private payments neither create nor destroy value.

The balance of an accepted payment is an equation between scalars (`Secrets.sum_value`). With as
many inputs as a payment can have, and values of 64 bits, both sides are far below the order of the
group, so it is an equation between integers.
-/

namespace ConfidentialPayment.Payment

/-- A bound on every summand bounds the sum. -/
theorem sum_map_le {α : Type} {as : List α} {f : α → ℕ} {bound count : ℕ}
    (hlength : as.length ≤ count) (h : ∀ a ∈ as, f a < bound) :
    (as.map f).sum ≤ count * bound := by
  have hsum := List.sum_le_card_nsmul (as.map f) bound
    (List.forall_mem_map.mpr fun a ha => (h a ha).le)
  rw [List.length_map, smul_eq_mul] at hsum
  exact hsum.trans (Nat.mul_le_mul_right bound hlength)

variable {P : Type} [Suite P] [LawfulGroup P] {gens : Generators P} {table : GeneratorTable P}
  {ledger : Ledger.View P} {fee : UInt64} {proof : Proof P} {tape rest : RandomSource}
  {secrets : Secrets}

/-- An accepted private payment spends as much as it pays, fee included: if the statements of its
proofs are true and all values have 64 bits, then the values that the spent ledger commitments have
on the value generator sum to those of the outputs and the fee, as integers. -/
theorem Secrets.sum_spent_eq_sum_paid (hgens : LinearIndependent Scalar gens.get)
    (haccepted : (proof.verifyPrivate gens table ledger fee).Gives tape () rest)
    (hcount : proof.inputs.length ≤ 65535) (hsecrets : secrets.Explain gens ledger proof)
    (hspent : ∀ coin ∈ secrets.coins, coin.opening.value.val < UInt64.size)
    (hpaid : ∀ output ∈ secrets.outputs, output.1.val < UInt64.size) :
    (secrets.coins.map fun coin => coin.opening.value.val).sum =
      (secrets.outputs.map fun output => output.1.val).sum + fee.toNat := by
  obtain ⟨s, shard, hparts, -, houtputs, -⟩ := Proof.parts_of_verifyPrivate haccepted
  have hcoins : secrets.coins.length ≤ 65535 := by
    rw [(hsecrets.inputs s.shard hparts.inputShard).length_eq, hparts.length_privateInputs]
    exact hcount
  have hlength : secrets.outputs.length ≤ 32 := by
    rwa [hsecrets.outputs, List.length_map] at houtputs
  have hspentBound := sum_map_le hcoins hspent
  have hpaidBound := sum_map_le hlength hpaid
  have hfee : fee.toNat < UInt64.size := fee.toNat_lt
  have hroom : 65535 * UInt64.size < Scalar.order := by decide
  rw [← Scalar.natCast_inj (by omega) (by omega), Nat.cast_add, Scalar.natCast_sum_val,
    Scalar.natCast_sum_val, secrets.sum_value hgens haccepted hsecrets, Scalar.ofUInt64_eq_natCast]

/-- The payment of the two coins spends 30 and pays 27 with a fee of 3. -/
theorem Secrets.sum_spent_eq_sum_paid_ideal :
    ∃ (proof : Proof Opening) (tape rest : RandomSource) (secrets : Secrets),
      (proof.verifyPrivate .ideal (.neutral Opening 128) Request.idealLedger.view 3).Gives
        tape () rest ∧
      secrets.Explain .ideal Request.idealLedger.view proof ∧ secrets.coins.length = 2 ∧
      (secrets.coins.map fun coin => coin.opening.value.val).sum =
        (secrets.outputs.map fun output => output.1.val).sum + 3 := by
  obtain ⟨w, hw⟩ := ShieldedWitness.exists_represents_ideal
  have hprovable := hw.isProvable rfl (Request.isGenuine_twoCoins .ideal true)
  have hlength : w.inputs.length = 2 := hprovable.length_inputs
  obtain ⟨memberships, hiddenSerials, range, outputs, -, haccepted⟩ :=
    hprovable.exists_accepted_ideal
  obtain ⟨⟨⟩, rest, hrun, -⟩ := haccepted ⟨fun _ => .replicate 64 0, 0⟩
  have hopening (input) (hinput : input ∈ w.inputs) :
      Generators.ideal.commit input.coin.commitment = w.spentCommitment .ideal input := by
    rw [Generators.commit_ideal,
      hw.spentCommitment_eq (Request.isGenuine_twoCoins .ideal true) hinput]
  have hsecrets := hprovable.explain_assemble (hw.inputs_ne_nil (List.cons_ne_nil _ _))
    (Request.agreesWith_ideal true) hopening memberships hiddenSerials range outputs
  have hcount : (w.inputs.map fun input => input.coin.strip).length ≤ 65535 := by
    rw [List.length_map, hlength]
    decide
  have hspent : ∀ coin ∈ (w.secrets fun input => input.coin.commitment).coins,
      coin.opening.value.val < UInt64.size := by
    refine List.forall_mem_map.mpr fun input hinput => ?_
    show input.coin.commitment.value.val < UInt64.size
    have hmem : input.coin ∈ [firstCoin .ideal, secondCoin .ideal] := (hw.exists_hides hinput).1
    obtain h | h := List.mem_pair.mp hmem
    · rw [h]
      decide
    · rw [h]
      decide
  have hpaid : ∀ output ∈ (w.secrets fun input => input.coin.commitment).outputs,
      output.1.val < UInt64.size := by
    refine List.forall_mem_map.mpr fun o _ => ?_
    rw [Scalar.val_ofUInt64]
    exact o.output.coin.value.toNat_lt
  exact ⟨_, _, rest, _, hrun, hsecrets, (List.length_map ..).trans hlength,
    sum_spent_eq_sum_paid Generators.linearIndependent_ideal hrun hcount hsecrets hspent hpaid⟩

end ConfidentialPayment.Payment
