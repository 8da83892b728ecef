import Mathlib.Algebra.Module.Basic
import ConfidentialPayment.Proofs.Membership.Batch
import ConfidentialPayment.Proofs.Payment.Witness
import ConfidentialPayment.Proofs.SerialNumber.Completeness

/-!
# ConfidentialPayment.Proofs.Payment.Provable

What a private payment has to fulfil to be proved and accepted.

`ShieldedWitness.IsProvable` asks of a witness what its proofs and the verifier ask of it, and no
more: every ring member and every serial number opens, and the value commitments balance. It does
not ask that a witness was made the way `ShieldedWitness.build` makes it. Proving a provable witness
succeeds (`IsProvable.prove_ensures`), and the payment is accepted
(`IsProvable.verifyPrivate_assemble`), because every part of verification rebuilds a part of the
witness: the rings, the statements of the serial number proofs, the commitments of the outputs and
the balance.
-/

namespace ConfidentialPayment.Payment

variable {P : Type} [Suite P] [LawfulGroup P] {gens : Generators P} {table : GeneratorTable P}
  {ledger : Ledger.View P} {r : Request P} {w : ShieldedWitness P}

namespace ShieldedWitness

/-- The ledger commitment that an input spends: what its ring member has left, and its parts. -/
def spentCommitment (gens : Generators P) (w : ShieldedWitness P) (input : ShieldedInput P) : P :=
  input.membership.blinding • gens.blinding +
    inputSum w.key input.value input.derivator w.shard

/-- What the proofs of a witness and the verifier ask of it; the rings are those of a request. -/
structure IsProvable (gens : Generators P) (r : Request P) (w : ShieldedWitness P) : Prop where
  rings : r.HasRings
  ringIndices : w.ringIndices = r.ringIndices
  shard : isShardCommitment gens w.shard = true
  inputRings : List.Forall₂ (fun source input => input.membership.ring =
    source.ring.map (· - inputSum w.key input.value input.derivator w.shard)) r.ringInputs w.inputs
  memberships : ∀ input ∈ w.inputs, input.membership.Opens gens
  serials : ∀ input ∈ w.inputs, (w.serialWitness input).Opens gens (w.serialStatement input)
  outputs : ∀ o ∈ w.outputs, o.Commits gens
  range : RangeProof.valueCommitments gens w.range.values w.range.blindings =
    w.outputs.map ShieldedOutput.value
  count : w.range.values.length = r.payees.length
  balance : (w.inputs.map ShieldedInput.value).sum =
    (w.outputs.map ShieldedOutput.value).sum + Scalar.ofUInt64 r.fee • gens.value

/-! ## Proving -/

/-- The proofs and the outputs that make a payment of a witness, all proofs accepted. -/
structure IsProvedBy (gens : Generators P) (table : GeneratorTable P)
    (w : ShieldedWitness P) (memberships : List (Membership.Proof P))
    (hiddenSerials : List (SerialNumber.Hidden.Proof P)) (range : RangeProof.Proof P)
    (outputs : List (OutputCoin P)) : Prop where
  memberships : List.Forall₂ (fun input proof => proof.verify gens input.membership.ring = .ok ())
    w.inputs memberships
  hiddenSerials : List.Forall₂ (fun input proof => proof.verify gens (w.serialStatement input) =
    .ok ()) w.inputs hiddenSerials
  commitments : range.commitments = w.outputs.map ShieldedOutput.value
  range : (range.challenges table).1.y ≠ 0 → (∀ x ∈ range.roundChallenges table, x ≠ 0) →
    range.verify gens table = .ok ()
  outputs : List.Forall₂
    (fun o output => output.coin = { o.output.coin with blinding := 0, value := 0 })
    w.outputs outputs

/-- Proving succeeds. -/
theorem IsProvable.prove_ensures (hw : w.IsProvable gens r)
    (hcapacity : RangeProof.vectorLength r.payees.length ≤ table.capacity) :
    (w.prove gens table).Ensures fun proof => ∃ memberships hiddenSerials range outputs,
      proof = w.assemble memberships hiddenSerials range outputs ∧
        w.IsProvedBy gens table memberships hiddenSerials range outputs := by
  have hrangeCapacity : w.range.vectorLength ≤ table.capacity := by
    rwa [RangeProof.Witness.vectorLength, hw.count]
  refine (DrawExcept.Ensures.mapM fun input hinput =>
    Membership.Witness.prove_ensures _ (hw.memberships input hinput)).bind
      fun memberships hmemberships => ?_
  refine (DrawExcept.Ensures.mapM fun input hinput =>
    SerialNumber.Hidden.prove_ensures (hw.serials input hinput)).bind
      fun hiddenSerials hhiddenSerials => ?_
  refine (w.range.prove_ensures gens table hrangeCapacity).bind fun range hrange => ?_
  refine (DrawExcept.Ensures.mapM fun o _ =>
    (o.output.encrypt_ensures o.transmissionKey).mono fun _ h => h.coin).bind
      fun outputs houtputs => ?_
  exact .pure ⟨memberships, hiddenSerials, range, outputs, rfl, hmemberships, hhiddenSerials,
    hrange.1.trans hw.range, hrange.2, houtputs⟩

/-! ## Verifying -/

section Assembled

variable {memberships : List (Membership.Proof P)}
  {hiddenSerials : List (SerialNumber.Hidden.Proof P)} {range : RangeProof.Proof P}
  {outputs : List (OutputCoin P)}

omit [LawfulGroup P] in
/-- There are as many shielded inputs as coins. -/
theorem IsProvable.length_inputs (hw : w.IsProvable gens r) :
    w.inputs.length = r.inputs.length := by
  rw [← hw.inputRings.length_eq, ← hw.rings.map_coin_ringInputs, List.length_map]

omit [LawfulGroup P] in
/-- The assembled payment has all parts of a private one. -/
theorem IsProvable.hasParts_assemble (hw : w.IsProvable gens r)
    (hp : w.IsProvedBy gens table memberships hiddenSerials range outputs) :
    (w.assemble memberships hiddenSerials range outputs).HasParts ⟨w.key, w.shard, range⟩ := by
  have hmemberships := hp.memberships.length_eq
  have hserials := hp.hiddenSerials.length_eq
  have houtputs := hp.outputs.length_eq
  constructor <;>
    simp [assemble, ← hmemberships, ← hserials, ← houtputs, hw.ringIndices, hw.rings.indices,
      hw.length_inputs]

omit [LawfulGroup P] in
/-- On a ledger that contains the rings, the verifier finds those that the prover used. -/
theorem IsProvable.rings_assemble (hw : w.IsProvable gens r)
    (hledger : ∀ entry ∈ r.ringIndices.zip r.ring, ledger.commitmentAt entry.1 = some entry.2) :
    (w.assemble memberships hiddenSerials range outputs).rings ledger ⟨w.key, w.shard, range⟩ =
      .ok (w.inputs.map fun input => input.membership.ring) := by
  have hmatch : List.Forall₂ (fun index member => ledger.commitmentAt index = some member)
      r.ringIndices r.ring :=
    List.forall₂_iff_zip.mpr ⟨hw.rings.indices.trans hw.rings.ring.symm, fun h => hledger _ h⟩
  have hinputs := (List.forall₂_and_left _ _).mpr
    ⟨Request.forall₂_of_mem_ringInputs hmatch, hw.inputRings⟩
  have hsums : List.zipWith (fun value derivator => inputSum w.key value derivator w.shard)
      (w.inputs.map ShieldedInput.value) (w.inputs.map ShieldedInput.derivator) =
      w.inputs.map fun input => inputSum w.key input.value input.derivator w.shard := by
    rw [List.zipWith_map, List.zipWith_self]
  unfold Proof.rings assemble
  dsimp only
  rw [hw.ringIndices, ← hw.rings.map_indices_ringInputs, hsums, mapM_eq_ok]
  generalize r.ringInputs = sources at hinputs
  generalize w.inputs = inputs at hinputs
  induction hinputs with
  | nil => exact .nil
  | cons h _ ih =>
    refine .cons ?_ ih
    obtain ⟨hmembers, hring⟩ := h
    dsimp only
    rw [mapM_eq_ok, hring, List.forall₂_map_right_iff]
    exact hmembers.imp fun _ _ h => ringMember_eq_ok_iff.mpr ⟨_, h, rfl⟩

omit [LawfulGroup P] in
/-- The proofs of the serial numbers are accepted. -/
theorem verifyHiddenSerials_assemble
    (hp : w.IsProvedBy gens table memberships hiddenSerials range outputs) :
    (w.assemble memberships hiddenSerials range outputs).verifyHiddenSerials gens
      ⟨w.key, w.shard, range⟩ = .ok () := by
  rw [Proof.verifyHiddenSerials_eq_ok_iff]
  have hserials := hp.hiddenSerials
  clear hp
  unfold assemble
  dsimp only
  generalize w.inputs = inputs at hserials
  induction hserials with
  | nil => exact List.forall_mem_nil _
  | cons h _ ih => exact List.forall_mem_cons.mpr ⟨h, ih⟩

omit [LawfulGroup P] in
/-- The parts of the outputs add up to their commitments. -/
theorem IsProvable.outputsAreAssembled_assemble (hw : w.IsProvable gens r)
    (hp : w.IsProvedBy gens table memberships hiddenSerials range outputs) :
    (w.assemble memberships hiddenSerials range outputs).outputsAreAssembled gens = true := by
  have houtputs := (List.forall₂_and_left _ _).mpr ⟨hw.outputs, hp.outputs⟩
  clear hp
  unfold Proof.outputsAreAssembled assemble
  dsimp only
  rw [List.all_eq_true]
  generalize w.outputs = shielded at houtputs
  induction houtputs with
  | nil => exact List.forall_mem_nil _
  | cons h _ ih =>
    refine List.forall_mem_cons.mpr ⟨?_, ih⟩
    obtain ⟨hcommits, hcoin⟩ := h
    rw [isAssembled_iff, hcoin]
    exact ⟨hcommits.derivator, hcommits.shard, hcommits.commitment⟩

omit [LawfulGroup P] in
/-- The assembled payment passes the checks of its coins. -/
theorem checkCoins_assemble (hinputs : w.inputs ≠ []) (houtputs : w.outputs ≠ [])
    (hserials : (w.inputs.map fun input => input.coin.serialNumber).Nodup)
    (hp : w.IsProvedBy gens table memberships hiddenSerials range outputs) :
    (w.assemble memberships hiddenSerials range outputs).checkCoins = .ok () := by
  refine Proof.checkCoins_eq_ok ?_ ?_ ?_
  · exact fun hnil => hinputs (List.map_eq_nil_iff.mp hnil)
  · rintro (rfl : outputs = [])
    exact houtputs (List.forall₂_nil_right_iff.mp hp.outputs)
  · show ((w.inputs.map fun input => input.coin.strip).map Coin.serialNumber).Nodup
    rw [List.map_map]
    exact hserials

omit [LawfulGroup P] in
/-- The checks behind the membership proofs pass. -/
theorem IsProvable.verifyShielded_assemble (hw : w.IsProvable gens r)
    (hp : w.IsProvedBy gens table memberships hiddenSerials range outputs)
    (hrange : range.verify gens table = .ok ()) :
    (w.assemble memberships hiddenSerials range outputs).verifyShielded gens table r.fee
      ⟨w.key, w.shard, range⟩ = .ok () :=
  Proof.verifyShielded_eq_ok_iff.mpr ⟨verifyHiddenSerials_assemble hp,
    hw.outputsAreAssembled_assemble hp, hp.commitments, hrange, Proof.isBalanced_iff.mpr hw.balance⟩

/-- Every verifier accepts the payment, if its range proof is accepted. -/
theorem IsProvable.verifyPrivate_assemble (hw : w.IsProvable gens r)
    (hledger : ∀ entry ∈ r.ringIndices.zip r.ring, ledger.commitmentAt entry.1 = some entry.2)
    (hp : w.IsProvedBy gens table memberships hiddenSerials range outputs)
    (hrange : range.verify gens table = .ok ()) :
    ((w.assemble memberships hiddenSerials range outputs).verifyPrivate gens table ledger
      r.fee).Ensures fun _ => True := by
  have hrings : (w.assemble memberships hiddenSerials range outputs).openRings gens ledger
      ⟨w.key, w.shard, range⟩ = .ok (w.inputs.map fun input => input.membership.ring) :=
    Proof.openRings_eq_ok_iff.mpr ⟨hw.shard, hw.rings_assemble hledger⟩
  have hbatch : (Membership.verifyBatch gens memberships
      (w.inputs.map fun input => input.membership.ring)).Ensures fun _ => True :=
    Membership.verifyBatch_ensures
      (List.forall₂_map_right_iff.mpr hp.memberships.flip)
  intro tape
  obtain ⟨⟨⟩, rest, hrun, -⟩ := hbatch tape
  exact ⟨(), rest, Proof.gives_verifyPrivate.mpr ⟨_, _, hw.hasParts_assemble hp, hrings, hrun,
    hw.verifyShielded_assemble hp hrange⟩, trivial⟩

end Assembled

end ShieldedWitness

end ConfidentialPayment.Payment
