import Mathlib.Algebra.Module.Basic
import ConfidentialPayment.Proofs.Payment.Completeness

/-!
# ConfidentialPayment.Proofs.Payment.Spending

What accepted private payments spend.

A private payment is read with the secrets behind it: `Secrets.Explain` says that the statements of
its proofs are true for them. No proof opens the value commitment of an input on its own. The ring
equation makes it commit to what is left of the spent coin when key, derivator and shard are taken
away (`SpentCoin.IsSpentBy.value_eq`), and the balance fixes the sum of these remainders
(`Secrets.exists_sum_remainder`). All that acceptance says about the spent coins follows from these
two.
-/

namespace ConfidentialPayment.Payment

variable {P : Type}

/-! ## Private inputs -/

/-- What a private payment shows of one input. -/
structure PrivateInput (P : Type) where
  indices : List UInt64
  serialNumber : P
  value : P
  derivator : P

/-- What a private payment shows of its inputs, one by one. -/
def Proof.privateInputs (proof : Proof P) : List (PrivateInput P) :=
  ((Bytes.chunks Membership.ringSize proof.ringIndices).zip
    (proof.inputs.zip (proof.inputValues.zip proof.inputDerivators))).map
      fun (indices, coin, value, derivator) => ⟨indices, coin.serialNumber, value, derivator⟩

section Parts

variable {proof : Proof P} {s : Shielding P}

/-- The indices of the rings are cut into one piece for each input. -/
theorem Proof.HasParts.length_chunks_ringIndices (h : proof.HasParts s) :
    (Bytes.chunks Membership.ringSize proof.ringIndices).length = proof.inputs.length :=
  length_chunks (by decide) h.ringIndices

/-- All parts of a private payment have one entry for each input. -/
theorem Proof.HasParts.length_privateInputs (h : proof.HasParts s) :
    proof.privateInputs.length = proof.inputs.length := by
  simp [privateInputs, h.length_chunks_ringIndices, h.inputValues, h.inputDerivators]

/-- The values of the inputs are those that the payment shows. -/
theorem Proof.HasParts.map_value_privateInputs (h : proof.HasParts s) :
    proof.privateInputs.map PrivateInput.value = proof.inputValues := by
  have hchunks := h.length_chunks_ringIndices
  have hvalues := h.inputValues
  have hderivators := h.inputDerivators
  rw [privateInputs, List.map_map]
  calc
    _ = ((((Bytes.chunks _ proof.ringIndices).zip (proof.inputs.zip
          (proof.inputValues.zip proof.inputDerivators))).map Prod.snd).map Prod.snd).map
            Prod.fst := by
      rw [List.map_map, List.map_map]
      rfl
    _ = _ := by
      rw [List.map_snd_zip (by simp [hchunks]),
        List.map_snd_zip (by simp [hvalues, hderivators]),
        List.map_fst_zip (hvalues.trans hderivators.symm).le]

end Parts

/-! ## Secrets -/

/-- The secrets behind one input: the opening of the ledger commitment that it spends, the blinding
of that commitment in the ring, and the opening of the commitment to its derivator. -/
structure SpentCoin where
  opening : Opening
  blinding : Scalar
  derivator : Scalar
  derivatorBlinding : Scalar

/-- The secrets behind a private payment; an output has its value and its blinding. -/
structure Secrets where
  privateKey : Scalar
  keyBlinding : Scalar
  coins : List SpentCoin
  outputs : List (Scalar × Scalar)

variable [Suite P]

/-- The statements behind the proofs of an input are true: a member of its ring opens to zero when
the parts of the input are taken away, and the derivator commitment hides nothing else. -/
structure SpentCoin.IsSpentBy (gens : Generators P) (ledger : Ledger.View P) (key shard : P)
    (coin : SpentCoin) (input : PrivateInput P) : Prop where
  member : ∃ index ∈ input.indices,
    ledger.commitmentAt index = some (gens.commit coin.opening)
  ring : gens.commit coin.opening - inputSum key input.value input.derivator shard =
    coin.blinding • gens.blinding
  derivator : input.derivator = gens.commitTo .derivator coin.derivator coin.derivatorBlinding

/-- The statements behind the proofs of a private payment are true for given secrets. -/
structure Secrets.Explain (gens : Generators P) (ledger : Ledger.View P) (secrets : Secrets)
    (proof : Proof P) : Prop where
  key : proof.key = some (gens.commitTo .privateKey secrets.privateKey secrets.keyBlinding)
  inputs : ∀ shard ∈ proof.inputShard, List.Forall₂
    (SpentCoin.IsSpentBy gens ledger
      (gens.commitTo .privateKey secrets.privateKey secrets.keyBlinding) shard)
    secrets.coins proof.privateInputs
  outputs : proof.outputValues =
    secrets.outputs.map fun o => gens.commitTo .value o.1 o.2

/-- What the commitments to key, derivator and shard hide of a spent coin, and its blinding in the
ring. -/
def Secrets.shown (secrets : Secrets) (shard : ℕ) (coin : SpentCoin) : Opening :=
  ⟨secrets.privateKey, 0, coin.derivator, .ofNat shard,
    secrets.keyBlinding + coin.derivatorBlinding + coin.blinding⟩

/-- What is left of a spent coin for the value commitment of its input. -/
def Secrets.remainder (secrets : Secrets) (shard : ℕ) (coin : SpentCoin) : Opening :=
  coin.opening - secrets.shown shard coin

/-! ## The sum of the remainders -/

variable [LawfulGroup P] {gens : Generators P} {ledger : Ledger.View P}

section Sum

variable {table : GeneratorTable P} {fee : UInt64} {proof : Proof P} {tape rest : RandomSource}
  {secrets : Secrets}

/-- The value commitment of an input commits to the remainder of its coin. -/
theorem SpentCoin.IsSpentBy.value_eq {coin : SpentCoin} {input : PrivateInput P} {shard : ℕ}
    (h : coin.IsSpentBy gens ledger
      (gens.commitTo .privateKey secrets.privateKey secrets.keyBlinding) (gens.commitShard shard)
      input) : input.value = gens.commit (secrets.remainder shard coin) := by
  have hring : input.value = gens.commit coin.opening -
      (gens.commitTo .privateKey secrets.privateKey secrets.keyBlinding + input.derivator +
        gens.commitShard shard + coin.blinding • gens.blinding) := by
    rw [← h.ring, inputSum]
    abel
  rw [hring, h.derivator, Secrets.remainder, Generators.commit_sub,
    gens.commit_eq (secrets.shown ..)]
  simp only [Generators.commitTo_eq, Generators.get, Generators.commitShard, Secrets.shown]
  module

omit [LawfulGroup P] in
/-- What acceptance says about a payment beside its proofs. -/
theorem Proof.parts_of_verifyPrivate
    (h : (proof.verifyPrivate gens table ledger fee).Gives tape () rest) :
    ∃ s shard, proof.HasParts s ∧ gens.commitShard shard = s.shard ∧
      proof.outputValues.length ≤ RangeProof.maxValues ∧
      proof.inputValues.sum =
        proof.outputValues.sum + Scalar.ofUInt64 fee • gens.value := by
  obtain ⟨s, rings, hparts, hrings, -, hchecks⟩ := gives_verifyPrivate.mp h
  obtain ⟨-, -, hcommitments, hrange, hbalance⟩ := verifyShielded_eq_ok_iff.mp hchecks
  obtain ⟨shard, -, hshard⟩ := isShardCommitment_iff.mp (openRings_eq_ok_iff.mp hrings).1
  exact ⟨s, shard, hparts, hshard, hcommitments ▸ RangeProof.Proof.length_commitments_le hrange,
    isBalanced_iff.mp hbalance⟩

/-- Over independent generators the remainders of all coins sum to the values of the outputs and
the fee, and to zero for every other attribute but the blinding. -/
theorem Secrets.exists_sum_remainder (hgens : LinearIndependent Scalar gens.get)
    (haccepted : (proof.verifyPrivate gens table ledger fee).Gives tape () rest)
    (hsecrets : secrets.Explain gens ledger proof) :
    ∃ shard, List.Forall₂
        (fun coin input => input.value = gens.commit (secrets.remainder shard coin))
        secrets.coins proof.privateInputs ∧
      (secrets.coins.map (secrets.remainder shard)).sum =
        ⟨0, (secrets.outputs.map Prod.fst).sum + .ofUInt64 fee, 0, 0,
          (secrets.outputs.map Prod.snd).sum⟩ := by
  obtain ⟨s, shard, hparts, hshard, -, hbalance⟩ := Proof.parts_of_verifyPrivate haccepted
  have hvalues : List.Forall₂
      (fun coin input => input.value = gens.commit (secrets.remainder shard coin))
      secrets.coins proof.privateInputs :=
    (hsecrets.inputs s.shard hparts.inputShard).imp fun _ _ h => (hshard ▸ h).value_eq
  refine ⟨shard, hvalues, Generators.commit_injective hgens ?_⟩
  calc
    gens.commit (secrets.coins.map (secrets.remainder shard)).sum
      = (proof.privateInputs.map PrivateInput.value).sum := by
        rw [Generators.commit_sum, List.map_map]
        exact congrArg List.sum (map_eq_map_of_forall₂ (hvalues.imp fun _ _ h => h.symm))
    _ = (secrets.outputs.map fun o => gens.commitTo .value o.1 o.2).sum +
          Scalar.ofUInt64 fee • gens.value := by
        rw [hparts.map_value_privateInputs, hbalance, hsecrets.outputs]
    _ = _ := by
        rw [Generators.sum_commitTo, Generators.commitTo_eq, Generators.commit_eq]
        simp only [Generators.get]
        module

omit [Suite P] [LawfulGroup P] in
/-- In every coordinate, what coins contain is what remains of them and what is shown. -/
theorem Secrets.sum_coordinate (secrets : Secrets) (shard : ℕ) (kind : Attribute) :
    (secrets.coins.map fun coin => Opening.coordinate kind coin.opening).sum =
      Opening.coordinate kind (secrets.coins.map (secrets.remainder shard)).sum +
        (secrets.coins.map fun coin => Opening.coordinate kind (secrets.shown shard coin)).sum := by
  rw [map_list_sum, List.map_map, ← List.sum_map_add]
  refine congrArg List.sum (List.map_congr_left fun coin _ => ?_)
  rw [Function.comp_apply, ← map_add, remainder, sub_add_cancel]

/-- The values of the spent coins sum to those of the outputs and the fee, as scalars. -/
theorem Secrets.sum_value (hgens : LinearIndependent Scalar gens.get)
    (haccepted : (proof.verifyPrivate gens table ledger fee).Gives tape () rest)
    (hsecrets : secrets.Explain gens ledger proof) :
    (secrets.coins.map fun coin => coin.opening.value).sum =
      (secrets.outputs.map Prod.fst).sum + .ofUInt64 fee := by
  obtain ⟨shard, -, hsum⟩ := exists_sum_remainder hgens haccepted hsecrets
  have hcoordinate := secrets.sum_coordinate shard .value
  rw [hsum] at hcoordinate
  have hshown : (secrets.coins.map fun coin =>
      Opening.coordinate .value (secrets.shown shard coin)).sum = 0 :=
    List.sum_map_zero
  rw [hshown, add_zero] at hcoordinate
  exact hcoordinate

/-- The derivators of the spent coins sum to those of the derivator commitments. -/
theorem Secrets.sum_derivator (hgens : LinearIndependent Scalar gens.get)
    (haccepted : (proof.verifyPrivate gens table ledger fee).Gives tape () rest)
    (hsecrets : secrets.Explain gens ledger proof) :
    (secrets.coins.map fun coin => coin.opening.derivator).sum =
      (secrets.coins.map SpentCoin.derivator).sum := by
  obtain ⟨shard, -, hsum⟩ := exists_sum_remainder hgens haccepted hsecrets
  have hcoordinate := secrets.sum_coordinate shard .derivator
  rw [hsum] at hcoordinate
  exact hcoordinate.trans (zero_add _)

/-- The private keys of the spent coins sum to that of the key commitment, once for each coin. -/
theorem Secrets.sum_privateKey (hgens : LinearIndependent Scalar gens.get)
    (haccepted : (proof.verifyPrivate gens table ledger fee).Gives tape () rest)
    (hsecrets : secrets.Explain gens ledger proof) :
    (secrets.coins.map fun coin => coin.opening.privateKey).sum =
      secrets.coins.length • secrets.privateKey := by
  obtain ⟨shard, -, hsum⟩ := exists_sum_remainder hgens haccepted hsecrets
  have hcoordinate := secrets.sum_coordinate shard .privateKey
  rw [hsum] at hcoordinate
  refine hcoordinate.trans ((zero_add _).trans ?_)
  show (secrets.coins.map fun _ => secrets.privateKey).sum = _
  rw [List.map_const', List.sum_replicate]

end Sum

/-! ## The secrets of a witness -/

namespace ShieldedWitness

variable {r : Request P} {w : ShieldedWitness P}

/-- The secrets of a witness, for given openings of the ledger commitments that it spends. -/
def secrets (w : ShieldedWitness P) (opening : ShieldedInput P → Opening) : Secrets where
  privateKey := w.privateKey
  keyBlinding := w.keyBlinding
  coins := w.inputs.map fun input =>
    ⟨opening input, input.membership.blinding, input.coin.derivator, input.derivatorBlinding⟩
  outputs := w.outputs.map fun o => (.ofUInt64 o.output.coin.value, o.output.coin.blinding)

omit [LawfulGroup P] in
/-- The inputs of the assembled payment are those of the witness, with the indices of the
request. -/
theorem IsProvable.privateInputs_assemble (hw : w.IsProvable gens r)
    {memberships : List (Membership.Proof P)} {hiddenSerials : List (SerialNumber.Hidden.Proof P)}
    {range : RangeProof.Proof P} {outputs : List (OutputCoin P)} :
    (w.assemble memberships hiddenSerials range outputs).privateInputs =
      List.zipWith (fun source input =>
        ⟨source.indices, input.coin.serialNumber, input.value, input.derivator⟩)
        r.ringInputs w.inputs := by
  unfold Proof.privateInputs assemble
  dsimp only
  rw [hw.ringIndices, ← hw.rings.map_indices_ringInputs]
  have hlength := hw.inputRings.length_eq
  generalize r.ringInputs = sources at hlength
  generalize w.inputs = inputs at hlength
  induction sources generalizing inputs with
  | nil => rfl
  | cons source sources ih =>
    obtain ⟨input, inputs, rfl⟩ := List.exists_cons_of_length_eq_add_one hlength.symm
    exact congrArg _ (ih inputs (Nat.succ.inj hlength))

/-- An input whose ring member opens spends the ledger commitment of that member. -/
theorem isSpentBy {source : RingInput P} {input : ShieldedInput P} {opening : Opening}
    (hmembers : List.Forall₂ (fun index member => ledger.commitmentAt index = some member)
      source.indices source.ring)
    (hring : input.membership.ring =
      source.ring.map (· - inputSum w.key input.value input.derivator w.shard))
    (hopens : input.membership.Opens gens)
    (hserial : (w.serialWitness input).Opens gens (w.serialStatement input))
    (hopening : gens.commit opening = w.spentCommitment gens input) :
    SpentCoin.IsSpentBy gens ledger w.key w.shard
      ⟨opening, input.membership.blinding, input.coin.derivator, input.derivatorBlinding⟩
      ⟨source.indices, input.coin.serialNumber, input.value, input.derivator⟩ where
  member := by
    unfold Membership.Witness.Opens at hopens
    rw [hring, List.getElem?_map, Option.map_eq_some_iff] at hopens
    obtain ⟨member, hmember, hdifference⟩ := hopens
    obtain ⟨index, hindex, hat⟩ :=
      exists_mem_of_forall₂ hmembers member (List.mem_of_getElem? hmember)
    refine ⟨index, hindex, hat.trans (congrArg some ?_)⟩
    rw [hopening, spentCommitment, ← hdifference, sub_add_cancel]
  ring := by
    rw [hopening, spentCommitment, add_sub_cancel_right]
  derivator := hserial.derivator

/-- The secrets of a provable witness explain every payment that it makes. -/
theorem IsProvable.explain_assemble (hw : w.IsProvable gens r) (hinputs : w.inputs ≠ [])
    (hledger : ∀ entry ∈ r.ringIndices.zip r.ring, ledger.commitmentAt entry.1 = some entry.2)
    {opening : ShieldedInput P → Opening}
    (hopening : ∀ input ∈ w.inputs, gens.commit (opening input) = w.spentCommitment gens input)
    (memberships : List (Membership.Proof P)) (hiddenSerials : List (SerialNumber.Hidden.Proof P))
    (range : RangeProof.Proof P) (outputs : List (OutputCoin P)) :
    (w.secrets opening).Explain gens ledger
      (w.assemble memberships hiddenSerials range outputs) := by
  obtain ⟨first, hfirst⟩ := List.exists_mem_of_ne_nil _ hinputs
  have hkey : w.key = gens.commitTo .privateKey w.privateKey w.keyBlinding :=
    (hw.serials first hfirst).key
  refine ⟨congrArg some hkey, ?_, ?_⟩
  · rintro shard hshard
    obtain rfl : w.shard = shard := Option.some.inj hshard
    have hmembers := Request.forall₂_of_mem_ringInputs
      (List.forall₂_iff_zip.mpr ⟨hw.rings.indices.trans hw.rings.ring.symm, fun h => hledger _ h⟩)
    have hopens : ∀ input ∈ w.inputs, input.membership.Opens gens ∧
        (w.serialWitness input).Opens gens (w.serialStatement input) ∧
        gens.commit (opening input) = w.spentCommitment gens input :=
      fun input h => ⟨hw.memberships input h, hw.serials input h, hopening input h⟩
    have hsources := (List.forall₂_and_left _ _).mpr ⟨hmembers, hw.inputRings⟩
    have hinputs := (List.forall₂_and_left _ _).mpr ⟨hopens, hsources.flip⟩
    rw [hw.privateInputs_assemble]
    show List.Forall₂ (SpentCoin.IsSpentBy gens ledger
      (gens.commitTo .privateKey w.privateKey w.keyBlinding) w.shard) (w.inputs.map _) _
    rw [← hkey]
    refine forall₂_map_zipWith (hinputs.flip.imp fun source input h => ?_)
    obtain ⟨⟨hmembership, hserial, hspent⟩, hindices, hring⟩ := h
    exact isSpentBy hindices hring hmembership hserial hspent
  · show w.outputs.map ShieldedOutput.value = _
    rw [secrets, List.map_map]
    exact List.map_congr_left fun o ho => (hw.outputs o ho).value

/-! ## The payment of two coins -/

/-- There is a witness of the private request for the two coins. -/
theorem exists_represents_ideal :
    ∃ w : ShieldedWitness Opening, w.Represents .ideal (Request.twoCoins .ideal true) := by
  obtain ⟨w, -, -, hw⟩ := Witness.ofRequest_ensures .ideal (Request.isComplete_twoCoins .ideal true)
    ⟨fun _ => .replicate 64 0, 0⟩
  cases w with
  | transparent w => exact Bool.noConfusion hw.1
  | shielded w => exact ⟨w, hw.2⟩

/-- The inputs of such a witness are the two coins. -/
theorem Represents.exists_inputs_ideal {w : ShieldedWitness Opening}
    (hw : w.Represents .ideal (Request.twoCoins .ideal true)) : ∃ first second,
      w.inputs = [first, second] ∧ first.coin = firstCoin .ideal ∧
        second.coin = secondCoin .ideal := by
  have hcoins : w.inputs.map ShieldedInput.coin = [firstCoin .ideal, secondCoin .ideal] :=
    hw.map_coin_inputs
  obtain ⟨first, others, hinputs, hfirst, hothers⟩ := List.map_eq_cons_iff.mp hcoins
  obtain ⟨second, none, rfl, hsecond, hnone⟩ := List.map_eq_cons_iff.mp hothers
  obtain rfl := List.map_eq_nil_iff.mp hnone
  exact ⟨first, second, hinputs, hfirst, hsecond⟩

/-- Every provable witness of the request for the two coins makes a payment that every verifier
accepts. -/
theorem IsProvable.exists_accepted_ideal {w : ShieldedWitness Opening}
    (hw : w.IsProvable .ideal (Request.twoCoins .ideal true)) :
    ∃ memberships hiddenSerials range outputs,
      w.IsProvedBy .ideal (.neutral Opening 128) memberships hiddenSerials range outputs ∧
        ((w.assemble memberships hiddenSerials range outputs).verifyPrivate .ideal
          (.neutral Opening 128) Request.idealLedger.view 3).Ensures fun _ => True := by
  have hcapacity : RangeProof.vectorLength (Request.twoCoins .ideal true).payees.length ≤
      (GeneratorTable.neutral Opening 128).capacity := by
    rw [GeneratorTable.capacity_neutral]
    decide
  obtain ⟨-, -, -, memberships, hiddenSerials, range, outputs, -, hp⟩ :=
    hw.prove_ensures hcapacity ⟨fun _ => .replicate 64 0, 0⟩
  obtain ⟨hy, hxs⟩ := RangeProof.challenges_ne_zero (fun _ _ => Scalar.one_ne_zero')
    (.neutral Opening 128) range
  exact ⟨memberships, hiddenSerials, range, outputs, hp,
    hw.verifyPrivate_assemble (Request.agreesWith_ideal true) hp (hp.range hy hxs)⟩

end ShieldedWitness

end ConfidentialPayment.Payment
