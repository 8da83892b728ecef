import Mathlib.Algebra.Module.Basic
import ConfidentialPayment.Payment.Witness
import ConfidentialPayment.Proofs.Coin
import ConfidentialPayment.Proofs.Coin.Output
import ConfidentialPayment.Proofs.Lists
import ConfidentialPayment.Proofs.Membership.Completeness
import ConfidentialPayment.Proofs.Payment.Verification
import ConfidentialPayment.Proofs.Pedersen
import ConfidentialPayment.Proofs.RangeProof.Completeness

/-!
# ConfidentialPayment.Proofs.Payment.Witness

What a witness of a payment has in common with the request that it was made for.

1. `Request.checkBalance_eq_ok_iff` says which requests pass the first check.
2. `ShieldedWitness.Represents` lists what `ShieldedWitness.build` fixes: what every input and every
   output commits to, and that the blindings of the outputs sum to those of the inputs.
3. `Witness.represents_of_ofRequest` takes the making of a witness apart into these two.
4. The outputs go to the payees in their order (`forall₂_goesTo_of_ofRequest`), and what a private
   payment publishes comes from the provers of its witness (`ShieldedWitness.assemble_of_prove`).
5. `Witness.ofRequest_ensures` says which requests make witnesses, whatever is drawn.
-/

namespace ConfidentialPayment.Payment

variable {P : Type}

/-! ## Requests -/

namespace Request

/-- A request balances if there are coins and payees, not too many, and the integers add up without
overflow. -/
theorem checkBalance_eq_ok_iff {r : Request P} : r.checkBalance = .ok () ↔
    r.inputs ≠ [] ∧ r.payees ≠ [] ∧ r.inputs.length ≤ maxInputs ∧ r.payees.length ≤ maxOutputs ∧
      totalValue r.inputs < UInt64.size ∧
      totalValue r.inputs = (r.payees.map fun payee => payee.amount.toNat).sum + r.fee.toNat := by
  rw [checkBalance, refuse_eq_ok, refuse_eq_ok, refuse_eq_ok, not_or, List.length_eq_zero_iff,
    List.length_eq_zero_iff, Nat.not_lt, Nat.not_lt, and_assoc]
  refine and_congr_right' (and_congr_right' (and_congr_right' (and_congr_right' ?_)))
  simp only [bind_eq_ok, Amount.total_eq_ok_iff, Amount.add_eq_ok_iff, List.map_map]
  constructor
  · rintro ⟨spent, hspent, paid, hpaid, sum, hsum, h⟩
    have hlt : spent.toNat < UInt64.size := spent.toNat_lt
    have htotal : spent.toNat = totalValue r.inputs := hspent
    have hpayments : paid.toNat = (r.payees.map fun payee => payee.amount.toNat).sum := hpaid
    by_cases hbalance : sum = spent
    · subst hbalance
      exact ⟨by omega, by omega⟩
    · rw [if_pos hbalance] at h
      cases h
  · rintro ⟨hlt, hbalance⟩
    have hspent : (UInt64.ofNat (totalValue r.inputs)).toNat = totalValue r.inputs :=
      UInt64.toNat_ofNat_of_lt' hlt
    have hpaid := UInt64.toNat_ofNat_of_lt' (show
      (r.payees.map fun payee => payee.amount.toNat).sum < UInt64.size by omega)
    refine ⟨_, hspent, _, hpaid, _, hspent.trans (by rw [hpaid]; exact hbalance), ?_⟩
    rw [if_neg (not_not.mpr rfl)]
    rfl

theorem checkBalance_eq_ok {r : Request P} (h : r.checkBalance = .ok ()) :
    r.inputs ≠ [] ∧ r.payees ≠ [] ∧ r.payees.length ≤ maxOutputs ∧
      totalValue r.inputs < UInt64.size ∧
      totalValue r.inputs = (r.payees.map fun payee => payee.amount.toNat).sum + r.fee.toNat :=
  have ⟨hinputs, hpayees, _, hrest⟩ := checkBalance_eq_ok_iff.mp h
  ⟨hinputs, hpayees, hrest⟩

/-- A request that balances has no more inputs than allowed. -/
theorem length_inputs_le_of_checkBalance {r : Request P} (h : r.checkBalance = .ok ()) :
    r.inputs.length ≤ maxInputs :=
  (checkBalance_eq_ok_iff.mp h).2.2.1

/-- The lists of rings have one entry for every member of every ring, and there is one position for
every input. -/
structure HasRings (r : Request P) : Prop where
  ring : r.ring.length = r.inputs.length * Membership.ringSize
  indices : r.ringIndices.length = r.inputs.length * Membership.ringSize
  positions : r.positions.length = r.inputs.length

/-- The check of the rings passes exactly if they fit the inputs. -/
theorem checkRings_eq_ok_iff {r : Request P} : r.checkRings = .ok () ↔ r.HasRings := by
  unfold checkRings
  constructor
  · intro h
    dsimp only at h
    split_ifs at h with hring hindices hpositions
    exact ⟨not_not.mp hring, not_not.mp hindices, not_not.mp hpositions⟩
  · intro h
    dsimp only
    rw [if_neg (not_not.mpr h.ring), if_neg (not_not.mpr h.indices),
      if_neg (not_not.mpr h.positions)]

variable {r : Request P}

/-- The members are cut into one ring for each input. -/
theorem HasRings.length_chunks_ring (h : r.HasRings) :
    (Bytes.chunks Membership.ringSize r.ring).length = r.inputs.length :=
  length_chunks (by decide) h.ring

/-- The indices are cut into one piece for each input. -/
theorem HasRings.length_chunks_indices (h : r.HasRings) :
    (Bytes.chunks Membership.ringSize r.ringIndices).length = r.inputs.length :=
  length_chunks (by decide) h.indices

/-- With rings for all of them, no input is lost. -/
theorem HasRings.map_coin_ringInputs (h : r.HasRings) :
    r.ringInputs.map RingInput.coin = r.inputs := by
  rw [ringInputs, List.map_map]
  refine List.map_fst_zip ?_
  simp [h.length_chunks_ring, h.length_chunks_indices, h.positions]

/-- With rings for all of them, no index is lost. -/
theorem HasRings.map_indices_ringInputs (h : r.HasRings) :
    r.ringInputs.map RingInput.indices = Bytes.chunks Membership.ringSize r.ringIndices := by
  have hrings := h.length_chunks_ring
  have hindices := h.length_chunks_indices
  have hpositions := h.positions
  rw [ringInputs, List.map_map]
  calc
    _ = ((r.inputs.zip ((Bytes.chunks _ r.ring).zip
          ((Bytes.chunks _ r.ringIndices).zip r.positions))).map Prod.snd).map
            (Prod.fst ∘ Prod.snd) := (List.map_map ..).symm
    _ = (((Bytes.chunks _ r.ring).zip
          ((Bytes.chunks _ r.ringIndices).zip r.positions)).map Prod.snd).map Prod.fst := by
      rw [List.map_snd_zip (by simp [hrings, hindices, hpositions]), ← List.map_map]
    _ = _ := by
      rw [List.map_snd_zip (by simp [hrings, hindices, hpositions]),
        List.map_fst_zip (hindices.trans hpositions.symm).le]

/-- The input at a place has the coin, the ring, the indices and the position of this place. -/
theorem getElem?_ringInputs_eq_some_iff {i : ℕ} {input : RingInput P} :
    r.ringInputs[i]? = some input ↔ r.inputs[i]? = some input.coin ∧
      (Bytes.chunks Membership.ringSize r.ring)[i]? = some input.ring ∧
      (Bytes.chunks Membership.ringSize r.ringIndices)[i]? = some input.indices ∧
      r.positions[i]? = some input.position := by
  rw [ringInputs, List.getElem?_map, Option.map_eq_some_iff]
  simp only [Prod.exists, List.getElem?_zip_eq_some]
  constructor
  · rintro ⟨coin, ring, indices, position, h, rfl⟩
    exact h
  · intro h
    exact ⟨_, _, _, _, h, rfl⟩

/-- What holds of all corresponding members and numbers holds of those of every input. -/
theorem forall₂_of_mem_ringInputs {R : UInt64 → P → Prop}
    (h : List.Forall₂ R r.ringIndices r.ring) :
    ∀ input ∈ r.ringInputs, List.Forall₂ R input.indices input.ring := by
  have hchunks := List.forall₂_iff_zip.mp (forall₂_chunks Membership.ringSize h)
  intro input hinput
  obtain ⟨⟨coin, ring, indices, position⟩, hmem, rfl⟩ := List.mem_map.mp hinput
  refine hchunks.2 (List.mem_iff_getElem?.mpr ?_)
  obtain ⟨i, hi⟩ := List.mem_iff_getElem?.mp hmem
  refine ⟨i, ?_⟩
  simp only [List.getElem?_zip_eq_some] at hi ⊢
  exact ⟨hi.2.2.1, hi.2.1⟩

end Request

/-- An input passes its check if the commitment of its coin stands at its position. -/
theorem RingInput.check_eq_ok_iff [DecidableEq P] {input : RingInput P} :
    input.check = .ok () ↔ input.position < Membership.ringSize ∧
      input.ring[input.position]? = some input.coin.commitment := by
  unfold check
  by_cases hposition : input.position ≥ Membership.ringSize
  · rw [if_pos hposition]
    simp [hposition.not_gt]
  · rw [if_neg hposition, and_iff_right (Nat.lt_of_not_ge hposition)]
    split_ifs with hmember
    · exact iff_of_true rfl hmember
    · exact iff_of_false (by simp) hmember

variable [Suite P] {gens : Generators P}

/-! ## Inputs -/

/-- What an input of a witness commits to and proves, for the ring input that it is made of and the
key that all inputs share. -/
structure ShieldedInput.Hides (gens : Generators P) (k : InputKey P) (source : RingInput P)
    (input : ShieldedInput P) : Prop where
  coin : input.coin = source.coin
  value : input.value =
    gens.commitTo .value (.ofUInt64 input.coin.value) input.valueBlinding
  derivator : input.derivator =
    gens.commitTo .derivator input.coin.derivator input.derivatorBlinding
  ring : input.membership.ring =
    source.ring.map (· - inputSum k.key input.value input.derivator k.shard)
  index : input.membership.index = source.position
  member : source.ring[input.membership.index]? = some input.coin.commitment
  blinding : input.membership.blinding =
    input.coin.blinding - (k.blinding + input.valueBlinding + input.derivatorBlinding)

/-- An input that is shielded hides its coin under the key. -/
theorem ShieldedInput.hides_of_shieldInput {k : InputKey P} {source : RingInput P}
    {input : ShieldedInput P} {tape rest : RandomSource}
    (h : (shieldInput gens k source).Gives tape input rest) : input.Hides gens k source := by
  unfold shieldInput at h
  simp only [DrawExcept.gives_bind, DrawExcept.gives_ofExcept] at h
  obtain ⟨⟨⟩, _, ⟨hcheck, rfl⟩, valueBlinding, _, -, derivatorBlinding, _, -, hwith, -⟩ := h
  obtain ⟨membership, hmembership, hinput⟩ := bind_eq_ok.mp hwith
  obtain rfl := pure_eq_ok.mp hinput
  obtain ⟨hring, hindex, hblinding⟩ := Membership.Witness.make_eq_ok hmembership
  have hmember := (RingInput.check_eq_ok_iff.mp hcheck).2
  exact ⟨rfl, rfl, rfl, hring, hindex, hindex ▸ hmember, hblinding⟩

/-! ## Outputs -/

/-- What an output of a witness commits to. -/
structure ShieldedOutput.Commits (gens : Generators P) (o : ShieldedOutput P) : Prop where
  value : o.value = gens.commitTo .value (.ofUInt64 o.output.coin.value) o.output.coin.blinding
  derivator : o.derivator = gens.commitDerivator o.output.coin.derivator
  shard : o.shard = gens.commitShard o.output.coin.shard
  commitment : o.output.coin.publicKey + o.value + o.derivator + o.shard = o.output.coin.commitment

/-- Whatever its blinding is, a shielded output commits to its amount. -/
theorem commits_shieldOutputWith (output : OutputCoin P) (transmissionKey : P)
    (blinding : Scalar) : (shieldOutputWith gens output transmissionKey blinding).Commits gens :=
  ⟨rfl, rfl, rfl, rfl⟩

variable (gens) in
/-- The outputs are those of some blindings, and these sum to the given one. -/
theorem exists_blindings_of_shieldOutputs (remaining : Scalar)
    (targets : List (OutputCoin P × P)) (tape : RandomSource) :
    ∃ blindings : List Scalar, blindings.length = targets.length ∧
      (targets ≠ [] → blindings.sum = remaining) ∧
      ((shieldOutputs gens remaining targets).run tape).1 =
        List.zipWith (fun target blinding => shieldOutputWith gens target.1 target.2 blinding)
          targets blindings := by
  induction targets generalizing remaining tape with
  | nil => exact ⟨[], rfl, fun h => absurd rfl h, rfl⟩
  | cons target targets ih =>
    cases targets with
    | nil => exact ⟨[remaining], rfl, fun _ => by simp, rfl⟩
    | cons next targets =>
      obtain ⟨blinding, tape', hdraw⟩ : ∃ blinding tape',
          RandomSource.scalar.run tape = (blinding, tape') := ⟨_, _, rfl⟩
      obtain ⟨blindings, hlength, hsum, hrun⟩ := ih (remaining - blinding) tape'
      refine ⟨blinding :: blindings, congrArg (· + 1) hlength, ?_, ?_⟩
      · intro _
        rw [List.sum_cons, hsum (List.cons_ne_nil _ _)]
        ring
      · rw [List.zipWith_cons_cons, ← hrun]
        simp only [shieldOutputs, StateT.run_bind, hdraw]
        rfl

/-- Every output is made of its coin and its key, whatever its blinding is. -/
theorem forall₂_shieldOutputs {remaining : Scalar} {targets : List (OutputCoin P × P)}
    {shielded : List (ShieldedOutput P)} {tape rest : RandomSource}
    (h : (shieldOutputs gens remaining targets).run tape = (shielded, rest)) :
    List.Forall₂ (fun target o => ∃ blinding, o = shieldOutputWith gens target.1 target.2 blinding)
      targets shielded := by
  obtain ⟨blindings, hlength, -, hrun⟩ :=
    exists_blindings_of_shieldOutputs gens remaining targets tape
  rw [h] at hrun
  refine forall₂_exists_eq_iff.mpr ⟨blindings, hlength, hrun.trans ?_⟩
  exact List.zipWith_comm ..

/-- All outputs commit to their amounts, whatever their shares of the blinding. -/
theorem commits_of_shieldOutputs {remaining : Scalar} {targets : List (OutputCoin P × P)}
    {shielded : List (ShieldedOutput P)} {tape rest : RandomSource}
    (h : (shieldOutputs gens remaining targets).run tape = (shielded, rest)) :
    ∀ o ∈ shielded, o.Commits gens := by
  intro o ho
  obtain ⟨target, -, blinding, rfl⟩ := exists_mem_of_forall₂ (forall₂_shieldOutputs h) o ho
  exact commits_shieldOutputWith ..

/-- The outputs are worth what the coins are worth that they are made of. -/
theorem values_of_shieldOutputs {remaining : Scalar} {outputs : List (OutputCoin P)}
    {keys : List P} {shielded : List (ShieldedOutput P)} {tape rest : RandomSource}
    (hlength : outputs.length = keys.length)
    (h : (shieldOutputs gens remaining (outputs.zip keys)).run tape = (shielded, rest)) :
    (shielded.map fun o => o.output.coin.value) = outputs.map fun o => o.coin.value := by
  have hvalues : List.Forall₂ (fun target o => target.1.coin.value = o.output.coin.value)
      (outputs.zip keys) shielded :=
    (forall₂_shieldOutputs h).imp fun target o ⟨_, ho⟩ => ho ▸ rfl
  calc
    _ = (outputs.zip keys).map fun target => target.1.coin.value :=
      (map_eq_map_of_forall₂ hvalues).symm
    _ = ((outputs.zip keys).map Prod.fst).map fun o => o.coin.value := by
      rw [List.map_map]
      rfl
    _ = _ := by rw [List.map_fst_zip hlength.le]

/-- The blindings of the outputs sum to the given one. -/
theorem sum_blindings_of_shieldOutputs {remaining : Scalar} {targets : List (OutputCoin P × P)}
    {shielded : List (ShieldedOutput P)} {tape rest : RandomSource} (htargets : targets ≠ [])
    (h : (shieldOutputs gens remaining targets).run tape = (shielded, rest)) :
    (shielded.map fun o => o.output.coin.blinding).sum = remaining := by
  obtain ⟨blindings, hblindings, hsum, hrun⟩ :=
    exists_blindings_of_shieldOutputs gens remaining targets tape
  rw [h] at hrun
  dsimp only at hrun
  rw [← hsum htargets, hrun, List.map_zipWith]
  congr 1
  calc
    _ = (targets.zip blindings).map Prod.snd := (List.map_uncurry_zip_eq_zipWith ..).symm
    _ = blindings := List.map_snd_zip hblindings.le

/-- An output that is committed keeps its value. -/
theorem isCommitted_of_commitOutput {output committed : OutputCoin P} {tape rest : RandomSource}
    (h : (liftM (commitOutput gens output) : DrawExcept _).Gives tape committed rest) :
    committed.coin.isCommitted gens = true ∧ committed.coin.value = output.coin.value := by
  rw [DrawExcept.gives_lift] at h
  obtain ⟨rfl, -⟩ := Prod.mk.inj h.symm
  exact ⟨Coin.isCommitted_commit _, rfl⟩

/-! ## Private payments -/

/-- What all inputs of a witness share. -/
def ShieldedWitness.inputKey (w : ShieldedWitness P) : InputKey P :=
  ⟨w.privateKey, w.keyBlinding, w.key, w.shard⟩

/-- What a witness of a private payment fixes, for the request that it was made for. -/
structure ShieldedWitness.Represents (gens : Generators P) (r : Request P)
    (w : ShieldedWitness P) : Prop where
  rings : r.HasRings
  privateKey : w.privateKey = r.privateKey
  key : w.key = gens.commitTo .privateKey w.privateKey w.keyBlinding
  shard : w.shard = gens.commitShard (shardOf (w.privateKey • gens.privateKey))
  ringIndices : w.ringIndices = r.ringIndices
  inputs : List.Forall₂ (ShieldedInput.Hides gens w.inputKey) r.ringInputs w.inputs
  outputs : ∀ o ∈ w.outputs, o.Commits gens
  amounts : (w.outputs.map fun o => o.output.coin.value) = r.payees.map Payee.amount
  blindings : (w.outputs.map fun o => o.output.coin.blinding).sum =
    (w.inputs.map ShieldedInput.valueBlinding).sum
  rangeValues : w.range.values = w.outputs.map fun o => o.output.coin.value
  rangeBlindings : w.range.blindings = w.outputs.map fun o => o.output.coin.blinding

/-- The coins of a private witness are those of the request. -/
theorem ShieldedWitness.Represents.map_coin_inputs {r : Request P} {w : ShieldedWitness P}
    (hw : w.Represents gens r) : w.inputs.map ShieldedInput.coin = r.inputs := by
  rw [← hw.rings.map_coin_ringInputs]
  exact (map_eq_map_of_forall₂ (hw.inputs.imp fun _ _ h => h.coin.symm)).symm

/-- A witness of a request for some coins has inputs. -/
theorem ShieldedWitness.Represents.inputs_ne_nil {r : Request P} {w : ShieldedWitness P}
    (hw : w.Represents gens r) (hinputs : r.inputs ≠ []) : w.inputs ≠ [] := by
  intro hnil
  have hcoins := hw.map_coin_inputs
  rw [hnil] at hcoins
  exact hinputs hcoins.symm

/-- A witness of a request for some payees has outputs. -/
theorem ShieldedWitness.Represents.outputs_ne_nil {r : Request P} {w : ShieldedWitness P}
    (hw : w.Represents gens r) (hpayees : r.payees ≠ []) : w.outputs ≠ [] := by
  intro hnil
  have hamounts := hw.amounts
  rw [hnil] at hamounts
  exact hpayees (List.map_eq_nil_iff.mp hamounts.symm)

/-- Different serial numbers of a request stay different in its witness. -/
theorem ShieldedWitness.Represents.nodup_serialNumbers {r : Request P} {w : ShieldedWitness P}
    (hw : w.Represents gens r) (hserials : (r.inputs.map Coin.serialNumber).Nodup) :
    (w.inputs.map fun input => input.coin.serialNumber).Nodup := by
  rwa [← hw.map_coin_inputs, List.map_map] at hserials

/-- Every input spends a coin of the request. -/
theorem ShieldedWitness.Represents.exists_hides {r : Request P} {w : ShieldedWitness P}
    (hw : w.Represents gens r) {input : ShieldedInput P} (hinput : input ∈ w.inputs) :
    input.coin ∈ r.inputs ∧ ∃ source, input.Hides gens w.inputKey source := by
  obtain ⟨source, -, hhides⟩ := exists_mem_of_forall₂ hw.inputs input hinput
  exact ⟨hw.map_coin_inputs ▸ List.mem_map_of_mem hinput, source, hhides⟩

/-- The drawn key hides the private key by a blinding and shows its shard. -/
theorem InputKey.draw_run {sk : Scalar} {k : InputKey P} {tape rest : RandomSource}
    (h : (draw gens sk).run tape = (k, rest)) :
    k.privateKey = sk ∧ k.key = gens.commitTo .privateKey sk k.blinding ∧
      k.shard = gens.commitShard (shardOf (sk • gens.privateKey)) := by
  obtain ⟨rfl, -⟩ := Prod.mk.inj h.symm
  exact ⟨rfl, rfl, rfl⟩

/-- A private witness that is built represents the request. -/
theorem ShieldedWitness.represents_of_build {r : Request P} {outputs : List (OutputCoin P)}
    {w : ShieldedWitness P} {tape rest : RandomSource} (hpayees : r.payees ≠ [])
    (houtputs : List.Forall₂ (fun payee output => output.coin.value = payee.amount)
      r.payees outputs)
    (h : (build gens r outputs).Gives tape w rest) : w.Represents gens r := by
  unfold build at h
  simp only [DrawExcept.gives_bind, DrawExcept.gives_ofExcept, DrawExcept.gives_pure,
    DrawExcept.gives_lift] at h
  obtain ⟨⟨⟩, _, ⟨hrings, rfl⟩, ⟨sk, keyBlinding, key, shard⟩, _, hkey, inputs, tape', hinputs,
    shielded, _, hshielded, range, _, ⟨hrange, rfl⟩, rfl, rfl⟩ := h
  obtain ⟨rfl, hkeyOpening, hshard⟩ := InputKey.draw_run hkey
  have hlength : outputs.length = (r.payees.map Payee.transmissionKey).length := by
    rw [List.length_map, houtputs.length_eq]
  have htargets : outputs.zip (r.payees.map Payee.transmissionKey) ≠ [] := by
    rw [ne_eq, ← List.length_eq_zero_iff, List.length_zip, ← hlength, Nat.min_self,
      ← houtputs.length_eq, List.length_eq_zero_iff]
    exact hpayees
  have hvalues := values_of_shieldOutputs hlength hshielded
  obtain ⟨hrangeValues, hrangeBlindings⟩ := RangeProof.Witness.make_eq_ok range hrange
  exact
    { rings := Request.checkRings_eq_ok_iff.mp hrings
      privateKey := rfl
      key := hkeyOpening
      shard := hshard
      ringIndices := rfl
      inputs := (DrawExcept.Gives.forall₂_of_mapM hinputs).imp
        fun _ _ ⟨_, _, hinput⟩ => ShieldedInput.hides_of_shieldInput hinput
      outputs := commits_of_shieldOutputs hshielded
      amounts := hvalues.trans (map_eq_map_of_forall₂ houtputs.flip)
      blindings := sum_blindings_of_shieldOutputs htargets hshielded
      rangeValues := by rw [hrangeValues, List.map_map]; rfl
      rangeBlindings := by rw [hrangeBlindings, List.map_map]; rfl }

/-! ## All payments -/

/-- What a witness of a transparent payment fixes. -/
structure TransparentWitness.Represents (gens : Generators P) (r : Request P)
    (w : TransparentWitness P) : Prop where
  privateKey : w.privateKey = r.privateKey
  inputs : w.inputs = r.inputs
  outputs : ∀ o ∈ w.outputs, o.coin.isCommitted gens = true
  amounts : (w.outputs.map fun o => o.coin.value) = r.payees.map Payee.amount

/-- What a witness fixes, for the request that it was made for. -/
def Witness.Represents (gens : Generators P) (r : Request P) : Witness P → Prop
  | transparent w => r.isPrivate = false ∧ w.Represents gens r
  | shielded w => r.isPrivate = true ∧ w.Represents gens r

/-- A request that makes a witness balances, and the witness represents it. -/
theorem Witness.represents_of_ofRequest {r : Request P} {w : Witness P}
    {tape rest : RandomSource} (h : (ofRequest gens r).Gives tape w rest) :
    r.checkBalance = .ok () ∧ w.Represents gens r := by
  unfold ofRequest at h
  simp only [DrawExcept.gives_bind, DrawExcept.gives_ofExcept] at h
  obtain ⟨⟨⟩, _, ⟨hbalance, rfl⟩, outputs, middle, houtputs, h⟩ := h
  have hvalues := (DrawExcept.Gives.forall₂_of_mapM houtputs).imp
    fun _ _ ⟨_, _, houtput⟩ => (OutputCoin.pays_of_forPayee houtput).value
  refine ⟨hbalance, ?_⟩
  cases hmode : r.isPrivate with
  | false =>
    rw [hmode] at h
    simp only [Bool.false_eq_true, if_false, DrawExcept.gives_bind, DrawExcept.gives_pure] at h
    obtain ⟨committed, _, hcommitted, rfl, rfl⟩ := h
    have hcommits := (DrawExcept.Gives.forall₂_of_mapM hcommitted).imp
      fun _ _ ⟨_, _, houtput⟩ => isCommitted_of_commitOutput houtput
    obtain ⟨hcommitted, hsame⟩ := (List.forall₂_and_left _ _).mp hcommits.flip
    refine ⟨hmode, rfl, rfl, hcommitted, ?_⟩
    exact (map_eq_map_of_forall₂ hsame).trans (map_eq_map_of_forall₂ hvalues.flip)
  | true =>
    rw [hmode, if_pos rfl, DrawExcept.gives_map] at h
    obtain ⟨w', hw', rfl⟩ := h
    have hpayees := (Request.checkBalance_eq_ok hbalance).2.1
    exact ⟨hmode, ShieldedWitness.represents_of_build hpayees hvalues hw'⟩

/-- A private payment has a witness of its own kind. -/
theorem Witness.exists_shielded_of_ofRequest {r : Request P} {w : Witness P}
    {tape rest : RandomSource} (hmode : r.isPrivate = true)
    (h : (ofRequest gens r).Gives tape w rest) :
    ∃ s : ShieldedWitness P, w = shielded s ∧ s.Represents gens r := by
  have hrepresents := (represents_of_ofRequest h).2
  cases w with
  | transparent w => exact absurd (hmode.symm.trans hrepresents.1) Bool.noConfusion
  | shielded w => exact ⟨w, rfl, hrepresents.2⟩

/-- An output is to be encrypted to the key of a payee, and its coin pays the payee. -/
structure ShieldedOutput.GoesTo (o : ShieldedOutput P) (payee : Payee P) : Prop where
  transmissionKey : o.transmissionKey = payee.transmissionKey
  coin : o.output.coin.Pays payee
  plain : o.output.IsPlain

/-- Blinding a coin and committing to it changes nothing of what it pays. -/
theorem goesTo_shieldOutputWith {output : OutputCoin P} {payee : Payee P}
    (hpays : output.coin.Pays payee) (hplain : output.IsPlain) (blinding : Scalar) :
    (shieldOutputWith gens output payee.transmissionKey blinding).GoesTo payee :=
  ⟨rfl, ⟨hpays.publicKey, hpays.value, hpays.info⟩, ⟨hplain.info, hplain.ciphertext⟩⟩

/-- The outputs of a private payment go to the payees in their order. -/
theorem forall₂_goesTo_of_ofRequest {r : Request P} {w : ShieldedWitness P}
    {tape rest : RandomSource} (h : (Witness.ofRequest gens r).Gives tape (.shielded w) rest) :
    List.Forall₂ (fun payee o => o.GoesTo payee) r.payees w.outputs := by
  have hmode : r.isPrivate = true := (Witness.represents_of_ofRequest h).2.1
  unfold Witness.ofRequest at h
  simp only [hmode, if_true, DrawExcept.gives_bind, DrawExcept.gives_map] at h
  obtain ⟨⟨⟩, _, -, outputs, _, houtputs, w', hw, hsame⟩ := h
  obtain rfl := Witness.shielded.inj hsame
  unfold ShieldedWitness.build at hw
  simp only [DrawExcept.gives_bind, DrawExcept.gives_pure, DrawExcept.gives_lift] at hw
  obtain ⟨⟨⟩, _, -, k, _, -, inputs, _, -, shielded, _, hshielded, range, _, -, rfl, -⟩ := hw
  have hpays : List.Forall₂ (fun payee output => output.coin.Pays payee ∧ output.IsPlain)
      r.payees outputs := houtputs.forall₂_of_mapM.imp fun _ _ ⟨_, _, houtput⟩ =>
    ⟨OutputCoin.pays_of_forPayee houtput, OutputCoin.isPlain_of_forPayee houtput⟩
  refine (forall₂_of_zip_map hpays (forall₂_shieldOutputs hshielded)).imp fun payee o ho => ?_
  obtain ⟨output, ⟨hpays, hplain⟩, blinding, rfl⟩ := ho
  exact goesTo_shieldOutputWith hpays hplain blinding

/-! ## What proving publishes -/

/-- A private payment is put together from runs of the provers of its witness and from its outputs,
encrypted to their keys. -/
theorem ShieldedWitness.assemble_of_prove {table : GeneratorTable P} {w : ShieldedWitness P}
    {proof : Proof P} {tape rest : RandomSource} (h : (w.prove gens table).Gives tape proof rest) :
    ∃ memberships hiddenSerials range outputs,
      proof = w.assemble memberships hiddenSerials range outputs ∧
      List.Forall₂ (fun input membership =>
        ∃ tape, membership = ((input.membership.prove gens).run tape).1) w.inputs memberships ∧
      List.Forall₂ (fun input serial => ∃ tape, serial = ((SerialNumber.Hidden.prove gens
        (w.serialStatement input) (w.serialWitness input)).run tape).1) w.inputs hiddenSerials ∧
      (∃ before after, (w.range.prove gens table).Gives before range after) ∧
      List.Forall₂ (fun o encrypted => o.output.IsEncryptedAs gens o.transmissionKey encrypted)
        w.outputs outputs := by
  unfold prove at h
  simp only [DrawExcept.gives_bind, DrawExcept.gives_pure] at h
  obtain ⟨memberships, _, hmemberships, hiddenSerials, _, hserials, range, _, hrange, outputs, _,
    houtputs, rfl, -⟩ := h
  exact ⟨memberships, hiddenSerials, range, outputs, rfl,
    hmemberships.forall₂_of_mapM.imp fun _ _ ⟨before, _, hrun⟩ => ⟨before, hrun.eq_run⟩,
    hserials.forall₂_of_mapM.imp fun _ _ ⟨before, _, hrun⟩ => ⟨before, hrun.eq_run⟩,
    ⟨_, _, hrange⟩, houtputs.forall₂_of_mapM.imp fun o _ ⟨_, _, hrun⟩ =>
      (o.output.encrypt_ensures o.transmissionKey).of_gives hrun⟩

/-! ## Requests that make witnesses -/

/-- What a request needs to make a witness: amounts that balance, short messages, and for a private
payment rings that have the inputs at their positions and outputs that are worth something. -/
structure Request.IsComplete (r : Request P) : Prop where
  balance : r.checkBalance = .ok ()
  messages : ∀ payee ∈ r.payees, payee.message.length ≤ Coin.maxInfoLength
  rings : r.isPrivate = true → r.HasRings
  members : r.isPrivate = true → ∀ input ∈ r.ringInputs, input.check = .ok ()
  amounts : r.isPrivate = true → ∀ payee ∈ r.payees, payee.amount ≠ 0

/-- A payee with a short message gets an output of the amount. -/
theorem forPayee_ensures {payee : Payee P} (h : payee.message.length ≤ Coin.maxInfoLength) :
    (OutputCoin.forPayee payee).Ensures fun output => output.coin.value = payee.amount := by
  refine .lift_bind fun derivator => ?_
  have hcoin : OutputCoin.coinFor payee derivator =
      .ok { Coin.uncommitted payee.publicKey derivator 0 payee.amount with
        info := payee.message } := by
    rw [OutputCoin.coinFor, Coin.withInfo, if_neg (Nat.not_lt.mpr h)]
  rw [hcoin]
  exact .pure rfl

/-- An input that passes its check is shielded, on every tape. -/
theorem shieldInput_ensures {k : InputKey P} {source : RingInput P}
    (hlength : source.ring.length = Membership.ringSize) (hcheck : source.check = .ok ()) :
    (shieldInput gens k source).Ensures fun _ => True := by
  refine .ofExcept_bind hcheck ?_
  refine .lift_bind fun valueBlinding => ?_
  refine .lift_bind fun derivatorBlinding => ?_
  have hposition := (RingInput.check_eq_ok_iff.mp hcheck).1
  unfold shieldInputWith Membership.Witness.make
  dsimp only
  rw [dif_pos (by rw [List.length_map, hlength]), dif_pos hposition]
  exact .ofExcept rfl trivial

/-- One range proof covers the amounts of a complete private request. -/
theorem Request.IsComplete.exists_range {r : Request P} (hr : r.IsComplete)
    (hmode : r.isPrivate = true) {coins : List (Coin P)}
    (hvalues : coins.map Coin.value = r.payees.map Payee.amount) :
    ∃ range, RangeProof.Witness.make (coins.map Coin.value) (coins.map Coin.blinding) =
      .ok range := by
  obtain ⟨-, hpayees, hmax, -⟩ := Request.checkBalance_eq_ok hr.balance
  refine RangeProof.Witness.exists_make (by simp only [List.length_map]) ?_ ?_ ?_
  · rw [hvalues, ne_eq, List.map_eq_nil_iff]
    exact hpayees
  · rw [hvalues, List.length_map]
    exact hmax
  · rw [hvalues]
    exact List.forall_mem_map.mpr (hr.amounts hmode)

/-- A private witness of a complete request is built, on every tape. -/
theorem ShieldedWitness.build_ensures {r : Request P} {outputs : List (OutputCoin P)}
    (hr : r.IsComplete) (hmode : r.isPrivate = true)
    (houtputs : List.Forall₂ (fun payee output => output.coin.value = payee.amount)
      r.payees outputs) :
    (build gens r outputs).Ensures fun _ => True := by
  have hrings := hr.rings hmode
  have hlengths : ∀ source ∈ r.ringInputs, source.ring.length = Membership.ringSize := by
    intro source hsource
    obtain ⟨⟨coin, ring, indices, position⟩, hmem, rfl⟩ := List.mem_map.mp hsource
    exact length_of_mem_chunks hrings.ring _ (List.of_mem_zip (List.of_mem_zip hmem).2).1
  have hlength : outputs.length = (r.payees.map Payee.transmissionKey).length := by
    rw [List.length_map, houtputs.length_eq]
  refine .ofExcept_bind (Request.checkRings_eq_ok_iff.mpr hrings) ?_
  refine .lift_bind fun k => ?_
  refine (DrawExcept.Ensures.mapM fun source hsource => shieldInput_ensures
    (hlengths source hsource) (hr.members hmode source hsource)).bind fun inputs _ => ?_
  dsimp only
  refine .bind (Q := fun shielded => (shielded.map fun o => o.output.coin.value) =
    outputs.map fun o => o.coin.value) (.lift fun tape => ?_) fun shielded hshielded => ?_
  · exact values_of_shieldOutputs hlength rfl
  have hvalues : (shielded.map fun o => o.output.coin).map Coin.value =
      r.payees.map Payee.amount := by
    rw [List.map_map]
    exact hshielded.trans (map_eq_map_of_forall₂ houtputs.flip)
  obtain ⟨range, hrange⟩ := hr.exists_range hmode hvalues
  exact .ofExcept_bind hrange (.pure trivial)

variable (gens) in
/-- A complete request makes a witness, whatever is drawn. -/
theorem Witness.ofRequest_ensures {r : Request P} (hr : r.IsComplete) :
    (ofRequest gens r).Ensures fun w => w.Represents gens r := by
  have hsucceeds : (ofRequest gens r).Ensures fun _ => True := by
    refine .ofExcept_bind hr.balance ?_
    refine (DrawExcept.Ensures.mapM fun payee hpayee =>
      forPayee_ensures (hr.messages payee hpayee)).bind fun outputs houtputs => ?_
    cases hmode : r.isPrivate with
    | false =>
      rw [if_neg Bool.false_ne_true]
      refine (DrawExcept.Ensures.mapM (S := fun _ _ => True) fun output _ =>
        .lift fun _ => trivial).bind fun _ _ => .pure trivial
    | true =>
      rw [if_pos rfl, ← bind_pure_comp]
      exact (ShieldedWitness.build_ensures hr hmode houtputs).bind fun _ _ => .pure trivial
  intro tape
  obtain ⟨w, rest, hrun, -⟩ := hsucceeds tape
  exact ⟨w, rest, hrun, (represents_of_ofRequest hrun).2⟩

end ConfidentialPayment.Payment
