import Mathlib.Algebra.Module.Basic
import ConfidentialPayment.Proofs.Payment.Completeness

/-!
# ConfidentialPayment.Proofs.Payment.Balance

What is in balance when a private payment has been built, before anything is proved.

The coins of a request need not be genuine. The blindings of the outputs are drawn so that they sum
to those of the inputs (`exists_blindings_of_shieldOutputs`), and the amounts of a request balance
as integers, so the value commitments balance as points. The commitment of an output is put together
from its parts; it is the one that `Coin.commit` makes (`ShieldedOutput.Commits.isCommitted`). Of an
input nothing is asked but that its coin is committed to under the key of the payment, and then its
ring member opens.
-/

namespace ConfidentialPayment.Payment

variable {P : Type} [Suite P] [LawfulGroup P] {gens : Generators P}

/-- The parts of an output sum to the commitment that its other fields imply. -/
theorem ShieldedOutput.Commits.isCommitted {o : ShieldedOutput P} (h : o.Commits gens) :
    o.output.coin.isCommitted gens = true := by
  rw [Coin.isCommitted_iff, ← h.commitment, h.value, h.derivator, h.shard, Generators.commitTo_eq,
    Generators.get]
  module

/-- A request for a private payment that makes a witness leaves nothing over: the blindings and the
value commitments of the inputs sum to those of the outputs, up to the fee. Every output is
committed to by the sum of its parts, blinded like its value. The ring of every input is that of the
request less the parts of the input, and its member at the position of the input opens to zero if
the coin is committed to under the key of the payment. -/
theorem Witness.balances_of_ofRequest {r : Request P} {w : Witness P} {tape rest : RandomSource}
    (hprivate : r.isPrivate = true) (hw : (ofRequest gens r).Gives tape w rest) :
    ∃ s : ShieldedWitness P, w = shielded s ∧
      (s.inputs.map ShieldedInput.valueBlinding).sum = s.range.blindings.sum ∧
      (s.inputs.map ShieldedInput.value).sum =
        (s.outputs.map ShieldedOutput.value).sum + Scalar.ofUInt64 r.fee • gens.value ∧
      w.outputs = s.outputs.map ShieldedOutput.output ∧
      s.range.blindings = (s.outputs.map fun o => o.output.coin.blinding) ∧
      (∀ o ∈ s.outputs, o.output.coin.isCommitted gens = true ∧
        o.output.coin.commitment = o.output.coin.publicKey + o.value + o.derivator + o.shard ∧
        o.value = gens.commitTo .value (.ofUInt64 o.output.coin.value) o.output.coin.blinding) ∧
      s.inputs.map ShieldedInput.coin = r.inputs ∧
      List.Forall₂ (fun source input => input.coin = source.coin ∧
        input.membership.index = source.position ∧
        input.membership.ring =
          source.ring.map (· - inputSum s.key input.value input.derivator s.shard) ∧
        (source.coin.isCommitted gens = true →
          source.coin.publicKey = r.privateKey • gens.privateKey →
          input.membership.ring[source.position]? =
            some (input.membership.blinding • gens.blinding))) r.ringInputs s.inputs := by
  obtain ⟨hbalance, hrepresents⟩ := represents_of_ofRequest hw
  cases w with
  | transparent w => exact absurd (hprivate.symm.trans hrepresents.1) Bool.noConfusion
  | shielded w =>
    have hw := hrepresents.2
    have hblindings : (w.inputs.map ShieldedInput.valueBlinding).sum = w.range.blindings.sum := by
      rw [hw.rangeBlindings, hw.blindings]
    have houtputs (o) (ho : o ∈ w.outputs) : o.output.coin.isCommitted gens = true ∧
        o.output.coin.commitment = o.output.coin.publicKey + o.value + o.derivator + o.shard ∧
        o.value = gens.commitTo .value (.ofUInt64 o.output.coin.value) o.output.coin.blinding :=
      have hcommits := hw.outputs o ho
      ⟨hcommits.isCommitted, hcommits.commitment.symm, hcommits.value⟩
    refine ⟨w, rfl, hblindings, hw.sum_values hbalance, rfl, hw.rangeBlindings, houtputs,
      hw.map_coin_inputs, hw.inputs.imp fun source input hhides => ?_⟩
    refine ⟨hhides.coin, hhides.index, hhides.ring, fun hcommitted hkey => ?_⟩
    rw [← hhides.coin] at hcommitted hkey
    exact hhides.index ▸ hw.opens_membership_of_hides hhides hcommitted hkey

/-- The payment of the two coins is built with a fee of 3, and its two inputs open at their
positions. -/
theorem Witness.balances_of_ofRequest_ideal :
    let gens := Generators.ideal
    let tape : RandomSource := ⟨fun _ => .replicate 64 0, 0⟩
    ∃ (s : ShieldedWitness Opening) (first second : ShieldedInput Opening) (rest : RandomSource),
      (ofRequest gens (Request.twoCoins .ideal true)).Gives tape (shielded s) rest ∧
      (s.inputs.map ShieldedInput.valueBlinding).sum = s.range.blindings.sum ∧
      (s.inputs.map ShieldedInput.value).sum =
        (s.outputs.map ShieldedOutput.value).sum + Scalar.ofUInt64 3 • gens.value ∧
      (∀ o ∈ s.outputs, o.output.coin.isCommitted gens = true) ∧
      s.inputs = [first, second] ∧
      first.membership.ring[2]? = some (first.membership.blinding • gens.blinding) ∧
      second.membership.ring[7]? = some (second.membership.blinding • gens.blinding) := by
  intro gens tape
  obtain ⟨w, rest, hw, -⟩ := ofRequest_ensures gens (Request.isComplete_twoCoins .ideal true) tape
  obtain ⟨s, rfl, hblindings, hvalues, -, -, houtputs, -, hinputs⟩ :=
    balances_of_ofRequest rfl hw
  rw [Request.ringInputs_twoCoins] at hinputs
  obtain ⟨first, others, hfirst, hothers, heq⟩ := List.forall₂_cons_left_iff.mp hinputs
  obtain ⟨second, none, hsecond, hnone, rfl⟩ := List.forall₂_cons_left_iff.mp hothers
  obtain rfl := List.forall₂_nil_left_iff.mp hnone
  have hgenuine := isGenuine_firstCoin .ideal
  have hgenuine' := isGenuine_secondCoin .ideal
  exact ⟨s, first, second, rest, hw, hblindings, hvalues, fun o ho => (houtputs o ho).1, heq,
    hfirst.2.2.2 hgenuine.committed hgenuine.publicKey,
    hsecond.2.2.2 hgenuine'.committed hgenuine'.publicKey⟩

end ConfidentialPayment.Payment
