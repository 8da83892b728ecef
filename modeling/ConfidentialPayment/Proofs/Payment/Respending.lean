import Mathlib.Algebra.Module.Basic
import ConfidentialPayment.Proofs.Payment.Spending

/-!
# ConfidentialPayment.Proofs.Payment.Respending

Which serial numbers private payments reveal.

1. Where the value commitment of an input commits to nothing but a value, the input reveals the
   serial number of the coin that it spends, and acceptance is enough for that if the payment has
   no other input (`Secrets.deriveSerial_of_explain`).
2. Nothing keeps a value commitment from committing to more. What inputs move from their derivator
   commitments to their value commitments cancels in the balance if it sums to zero, so a payment
   of two coins stays acceptable under other serial numbers (`ShieldedWitness.IsProvable.shift`),
   and the same coins are spent twice (`ShieldedWitness.exists_spent_twice_ideal`).
-/

namespace ConfidentialPayment.Payment

variable {P : Type} [Suite P] {gens : Generators P}

/-- The serial numbers that a private payment reveals solve the equations of their proofs. -/
def Secrets.SolveSerials (gens : Generators P) (secrets : Secrets) (proof : Proof P) : Prop :=
  List.Forall₂ (fun coin input =>
    (secrets.privateKey + coin.derivator) • input.serialNumber = gens.privateKey)
    secrets.coins proof.privateInputs

/-- The secrets of a provable witness solve the equations of its serial numbers. -/
theorem ShieldedWitness.IsProvable.solveSerials_assemble {r : Request P} {w : ShieldedWitness P}
    (hw : w.IsProvable gens r) (opening : ShieldedInput P → Opening)
    (memberships : List (Membership.Proof P))
    (hiddenSerials : List (SerialNumber.Hidden.Proof P)) (range : RangeProof.Proof P)
    (outputs : List (OutputCoin P)) :
    (w.secrets opening).SolveSerials gens
      (w.assemble memberships hiddenSerials range outputs) := by
  have hserials := (List.forall₂_and_left _ _).mpr ⟨hw.serials, hw.inputRings.flip⟩
  unfold Secrets.SolveSerials
  rw [hw.privateInputs_assemble]
  exact forall₂_map_zipWith (hserials.flip.imp fun _ _ h => h.1.serial)

variable [LawfulGroup P]

/-! ## Serial numbers of spent coins -/

section Spent

variable {table : GeneratorTable P} {ledger : Ledger.View P} {fee : UInt64} {proof : Proof P}
  {tape rest : RandomSource} {secrets : Secrets}

/-- The key and the derivator of a spent coin are those of its input, if nothing else is hidden in
the value commitment of that input or if there is no other input to balance it. -/
theorem Secrets.opening_of_explain (hgens : LinearIndependent Scalar gens.get)
    (haccepted : (proof.verifyPrivate gens table ledger fee).Gives tape () rest)
    (hsecrets : secrets.Explain gens ledger proof) :
    List.Forall₂ (fun coin input =>
      (secrets.coins.length = 1 ∨ ∃ v s, input.value = gens.commitTo .value v s) →
        coin.opening.privateKey = secrets.privateKey ∧
          coin.opening.derivator = coin.derivator)
      secrets.coins proof.privateInputs := by
  obtain ⟨shard, hvalues, hsum⟩ := exists_sum_remainder hgens haccepted hsecrets
  have hsingle : ∀ coin ∈ secrets.coins, secrets.coins.length = 1 →
      ∃ v s, secrets.remainder shard coin = ⟨0, v, 0, 0, s⟩ := by
    intro coin hcoin hlength
    obtain ⟨only, honly⟩ := List.length_eq_one_iff.mp hlength
    rw [honly, List.map_singleton, List.sum_singleton] at hsum
    obtain rfl : coin = only := List.mem_singleton.mp (honly ▸ hcoin)
    exact ⟨_, _, hsum⟩
  refine ((List.forall₂_and_left _ _).mpr ⟨hsingle, hvalues⟩).imp ?_
  rintro coin input ⟨hone, hvalue⟩ hpinned
  have hremainder : ∃ v s, secrets.remainder shard coin = ⟨0, v, 0, 0, s⟩ := by
    obtain hlength | ⟨v, s, hcommits⟩ := hpinned
    · exact hone hlength
    · rw [hvalue, gens.commitTo_value] at hcommits
      exact ⟨v, s, Generators.commit_injective hgens hcommits⟩
  obtain ⟨v, s, hremainder⟩ := hremainder
  exact ⟨sub_eq_zero.mp (congrArg Opening.privateKey hremainder),
    sub_eq_zero.mp (congrArg Opening.derivator hremainder)⟩

/-- An accepted private payment reveals the serial numbers of the coins that it spends, as far as
its value commitments commit to values: keys and derivators of the spent coins agree with those
behind the proofs in total, and for every input whose value commitment hides nothing else, or that
is the only one, the revealed serial number is derived from the opening of the spent coin. -/
theorem Secrets.deriveSerial_of_explain (hgens : LinearIndependent Scalar gens.get)
    (haccepted : (proof.verifyPrivate gens table ledger fee).Gives tape () rest)
    (hsecrets : secrets.Explain gens ledger proof) (hserials : secrets.SolveSerials gens proof) :
    (secrets.coins.map fun coin => coin.opening.privateKey).sum =
        secrets.coins.length • secrets.privateKey ∧
      (secrets.coins.map fun coin => coin.opening.derivator).sum =
        (secrets.coins.map SpentCoin.derivator).sum ∧
      List.Forall₂ (fun coin input =>
        (secrets.coins.length = 1 ∨ ∃ v s, input.value = gens.commitTo .value v s) →
          coin.opening.privateKey = secrets.privateKey ∧
          coin.opening.derivator = coin.derivator ∧
          deriveSerial gens.privateKey coin.opening.privateKey coin.opening.derivator =
            .ok input.serialNumber)
        secrets.coins proof.privateInputs := by
  refine ⟨sum_privateKey hgens haccepted hsecrets, sum_derivator hgens haccepted hsecrets, ?_⟩
  have hbase : gens.privateKey ≠ 0 := hgens.ne_zero Attribute.privateKey
  have hopenings := opening_of_explain hgens haccepted hsecrets
  refine (forall₂_and hopenings hserials).imp ?_
  rintro coin input ⟨hopening, hserial⟩ hpinned
  obtain ⟨hkey, hderivator⟩ := hopening hpinned
  refine ⟨hkey, hderivator, ?_⟩
  rw [hkey, hderivator]
  exact deriveSerial_of_smul hbase hserial

/-- The private payment of the two coins reveals their serial numbers. -/
theorem Secrets.deriveSerial_of_explain_ideal :
    ∃ (proof : Proof Opening) (tape rest : RandomSource) (secrets : Secrets),
      (proof.verifyPrivate .ideal (.neutral Opening 128) Request.idealLedger.view 3).Gives
        tape () rest ∧
      secrets.Explain .ideal Request.idealLedger.view proof ∧ secrets.SolveSerials .ideal proof ∧
      secrets.coins.length = 2 ∧
      List.Forall₂ (fun coin input =>
        deriveSerial Generators.ideal.privateKey coin.opening.privateKey
          coin.opening.derivator = .ok input.serialNumber) secrets.coins proof.privateInputs := by
  obtain ⟨w, hw⟩ := ShieldedWitness.exists_represents_ideal
  have hprovable := hw.isProvable rfl (Request.isGenuine_twoCoins .ideal true)
  obtain ⟨memberships, hiddenSerials, range, outputs, -, haccepted⟩ :=
    hprovable.exists_accepted_ideal
  obtain ⟨⟨⟩, rest, hrun, -⟩ := haccepted ⟨fun _ => .replicate 64 0, 0⟩
  have hopening (input) (_ : input ∈ w.inputs) :
      Generators.ideal.commit (w.spentCommitment .ideal input) = w.spentCommitment .ideal input :=
    Generators.commit_ideal _
  have hsecrets := hprovable.explain_assemble (hw.inputs_ne_nil (List.cons_ne_nil _ _))
    (Request.agreesWith_ideal true) hopening memberships hiddenSerials range outputs
  have hserials := hprovable.solveSerials_assemble (w.spentCommitment .ideal) memberships
    hiddenSerials range outputs
  have hvalues : List.Forall₂
      (fun _ input => ∃ v s, input.value = Generators.ideal.commitTo .value v s)
      (w.secrets (w.spentCommitment .ideal)).coins
      (w.assemble memberships hiddenSerials range outputs).privateInputs := by
    rw [hprovable.privateInputs_assemble]
    exact forall₂_map_zipWith (hw.inputs.imp fun _ _ h => ⟨_, _, h.value⟩)
  obtain ⟨-, -, hrevealed⟩ :=
    deriveSerial_of_explain Generators.linearIndependent_ideal hrun hsecrets hserials
  refine ⟨_, _, rest, _, hrun, hsecrets, hserials,
    (List.length_map ..).trans hprovable.length_inputs, ?_⟩
  exact (forall₂_and hvalues hrevealed).imp fun _ _ h => (h.2 (.inr h.1)).2.2

end Spent

/-! ## Other serial numbers for the same coins -/

/-- An input with a share of its derivator commitment moved to its value commitment, under the
serial number that the remaining derivator gives. -/
def ShieldedInput.shift (gens : Generators P) (privateKey d : Scalar) (input : ShieldedInput P) :
    ShieldedInput P :=
  { input with
    coin := { input.coin with
      derivator := input.coin.derivator - d
      serialNumber := (privateKey + (input.coin.derivator - d))⁻¹ • gens.privateKey }
    value := input.value + d • gens.derivator
    derivator := input.derivator - d • gens.derivator }

namespace ShieldedWitness

variable {r : Request P} {w : ShieldedWitness P} {ds : List Scalar}

/-- A witness with all its inputs shifted. -/
def shift (gens : Generators P) (ds : List Scalar) (w : ShieldedWitness P) : ShieldedWitness P :=
  { w with inputs := List.zipWith (ShieldedInput.shift gens w.privateKey) ds w.inputs }

/-- A shift moves between two parts of an input, so their sum stays. -/
theorem inputSum_shift (input : ShieldedInput P) (sk d : Scalar) (key shard : P) :
    inputSum key (input.shift gens sk d).value (input.shift gens sk d).derivator shard =
      inputSum key input.value input.derivator shard := by
  simp only [inputSum, ShieldedInput.shift]
  abel

omit [LawfulGroup P] in
/-- What holds of every shifted input holds of the inputs of the shifted witness. -/
theorem forall_mem_inputs_shift {p : ShieldedInput P → Prop}
    (h : ∀ pair ∈ ds.zip w.inputs, p (pair.2.shift gens w.privateKey pair.1)) :
    ∀ input ∈ (w.shift gens ds).inputs, p input := by
  unfold shift
  dsimp only
  rw [← List.map_uncurry_zip_eq_zipWith]
  exact List.forall_mem_map.mpr h

/-- Shifts add up along the generator of derivators. -/
theorem sum_value_shift {inputs : List (ShieldedInput P)} (hlength : ds.length = inputs.length)
    (sk : Scalar) :
    ((List.zipWith (ShieldedInput.shift gens sk) ds inputs).map ShieldedInput.value).sum =
      (inputs.map ShieldedInput.value).sum + ds.sum • gens.derivator := by
  induction inputs generalizing ds with
  | nil =>
    obtain rfl := List.eq_nil_of_length_eq_zero hlength
    simp
  | cons input inputs ih =>
    obtain ⟨d, ds, rfl⟩ := List.exists_cons_of_length_eq_add_one hlength
    rw [List.zipWith_cons_cons, List.map_cons, List.sum_cons, ih (Nat.succ.inj hlength),
      List.map_cons, List.sum_cons, List.sum_cons, ShieldedInput.shift]
    module

/-- Shifts that sum to zero keep a witness provable, whatever its serial numbers become. -/
theorem IsProvable.shift (hw : w.IsProvable gens r) (hlength : ds.length = w.inputs.length)
    (hsum : ds.sum = 0)
    (hkeys : ∀ pair ∈ ds.zip w.inputs, w.privateKey + (pair.2.coin.derivator - pair.1) ≠ 0) :
    (w.shift gens ds).IsProvable gens r where
  rings := hw.rings
  ringIndices := hw.ringIndices
  shard := hw.shard
  inputRings := forall₂_zipWith_right hlength hw.inputRings fun d source input h => by
    show input.membership.ring = source.ring.map (· - inputSum w.key _ _ w.shard)
    rw [inputSum_shift, h]
  memberships := forall_mem_inputs_shift fun pair hpair =>
    hw.memberships pair.2 (List.of_mem_zip hpair).2
  serials := forall_mem_inputs_shift fun ⟨d, input⟩ hpair => by
    have hserial := hw.serials input (List.of_mem_zip hpair).2
    refine ⟨hserial.key, ?_, smul_inv_smul₀ (hkeys _ hpair) _⟩
    show input.derivator - d • gens.derivator =
      gens.commitTo .derivator (input.coin.derivator - d) input.derivatorBlinding
    have hderivator : input.derivator =
      gens.commitTo .derivator input.coin.derivator input.derivatorBlinding := hserial.derivator
    rw [hderivator, Generators.commitTo_eq, Generators.commitTo_eq]
    simp only [Generators.get]
    module
  outputs := hw.outputs
  range := hw.range
  count := hw.count
  balance := by
    show ((List.zipWith (ShieldedInput.shift gens w.privateKey) ds w.inputs).map
      ShieldedInput.value).sum = _
    rw [sum_value_shift hlength, hsum, zero_smul, add_zero]
    exact hw.balance

/-- A shifted input spends the same ledger commitment. -/
theorem spentCommitment_shift (input : ShieldedInput P) (sk d : Scalar) :
    (w.shift gens ds).spentCommitment gens (input.shift gens sk d) =
      w.spentCommitment gens input :=
  congrArg (input.membership.blinding • gens.blinding + ·) (inputSum_shift input sk d w.key w.shard)

/-- A provable witness of the request for the two coins with different serial numbers makes a
payment that every verifier accepts, and its secrets are behind that payment. -/
theorem IsProvable.exists_spending_ideal {w : ShieldedWitness Opening}
    (hw : w.IsProvable .ideal (Request.twoCoins .ideal true)) (hinputs : w.inputs ≠ [])
    (houtputs : w.outputs ≠ [])
    (hserials : (w.inputs.map fun input => input.coin.serialNumber).Nodup) :
    let secrets := w.secrets (w.spentCommitment .ideal)
    ∃ proof : Proof Opening,
      (proof.inputs.map Coin.serialNumber =
        w.inputs.map fun input => input.coin.serialNumber) ∧
      ((proof.verify .ideal (.neutral Opening 128) Request.idealLedger.view true 3).Ensures
        fun _ => True) ∧
      secrets.Explain .ideal Request.idealLedger.view proof ∧
      secrets.SolveSerials .ideal proof := by
  intro secrets
  obtain ⟨memberships, hiddenSerials, range, outputs, hp, haccepted⟩ := hw.exists_accepted_ideal
  have hcoins := checkCoins_assemble hinputs houtputs hserials hp
  refine ⟨w.assemble memberships hiddenSerials range outputs, ?_, ?_, ?_, ?_⟩
  · show (w.inputs.map fun input => input.coin.strip).map Coin.serialNumber = _
    rw [List.map_map]
    rfl
  · refine .bind (Q := fun _ => True) (.ofExcept hcoins trivial) fun _ _ => ?_
    rw [if_pos rfl]
    exact haccepted
  · exact hw.explain_assemble hinputs (Request.agreesWith_ideal true)
      (fun input _ => Generators.commit_ideal _) memberships hiddenSerials range outputs
  · exact hw.solveSerials_assemble _ memberships hiddenSerials range outputs

section Ideal

variable {w : ShieldedWitness Opening}

/-- The serial numbers of the two coins are the base point divided by these scalars. -/
theorem Represents.serialNumbers_ideal (hw : w.Represents .ideal (Request.twoCoins .ideal true)) :
    (w.inputs.map fun input => input.coin.serialNumber) =
      [3 + 5, 3 + 6].map fun x : Scalar => x⁻¹ • Generators.ideal.privateKey := by
  obtain ⟨i, j, hinputs, hi, hj⟩ := hw.exists_inputs_ideal
  rw [hinputs, List.map_cons, List.map_cons, hi, hj]
  rfl

/-- Shifting a witness of the two coins shifts the first one up and the second one down. -/
theorem Represents.inputs_shift_ideal (hw : w.Represents .ideal (Request.twoCoins .ideal true)) :
    ∃ i j, w.inputs = [i, j] ∧ i.coin = firstCoin .ideal ∧ j.coin = secondCoin .ideal ∧
      (w.shift .ideal [1, -1]).inputs = [i.shift .ideal 3 1, j.shift .ideal 3 (-1)] := by
  obtain ⟨i, j, hinputs, hi, hj⟩ := hw.exists_inputs_ideal
  have hkey : w.privateKey = 3 := hw.privateKey
  refine ⟨i, j, hinputs, hi, hj, ?_⟩
  show List.zipWith (ShieldedInput.shift .ideal w.privateKey) [1, -1] w.inputs = _
  rw [hinputs, hkey]
  rfl

/-- The serial numbers after the derivators have moved by one and minus one. -/
theorem Represents.serialNumbers_shift_ideal
    (hw : w.Represents .ideal (Request.twoCoins .ideal true)) :
    ((w.shift .ideal [1, -1]).inputs.map fun input => input.coin.serialNumber) =
      [3 + (5 - 1), 3 + (6 - -1)].map fun x : Scalar => x⁻¹ • Generators.ideal.privateKey := by
  obtain ⟨i, j, -, hi, hj, hshifted⟩ := hw.inputs_shift_ideal
  rw [hshifted, List.map_cons, List.map_cons, ShieldedInput.shift, ShieldedInput.shift, hi, hj]
  rfl

/-- The shifts of the two coins cancel, so the shifted witness can be proved. -/
theorem Represents.isProvable_shift_ideal
    (hw : w.Represents .ideal (Request.twoCoins .ideal true)) :
    (w.shift .ideal [1, -1]).IsProvable .ideal (Request.twoCoins .ideal true) := by
  obtain ⟨i, j, hinputs, hi, hj⟩ := hw.exists_inputs_ideal
  have hkey : w.privateKey = 3 := hw.privateKey
  have hprovable := hw.isProvable rfl (Request.isGenuine_twoCoins .ideal true)
  refine hprovable.shift (by rw [hinputs]; rfl) (by decide) ?_
  rw [hinputs, hkey]
  refine List.forall_mem_cons.mpr ⟨?_, List.forall_mem_singleton.mpr ?_⟩
  · show (3 : Scalar) + (i.coin.derivator - 1) ≠ 0
    rw [hi]
    decide
  · show (3 : Scalar) + (j.coin.derivator - -1) ≠ 0
    rw [hj]
    decide

/-- Both witnesses spend the same openings, but the derivators of the second one are not theirs. -/
theorem Represents.openings_shift_ideal (hw : w.Represents .ideal (Request.twoCoins .ideal true)) :
    let shifted := w.shift .ideal [1, -1]
    let coins := (shifted.secrets (shifted.spentCommitment .ideal)).coins
    (w.secrets (w.spentCommitment .ideal)).coins.map SpentCoin.opening =
        coins.map SpentCoin.opening ∧
      ∀ coin ∈ coins, coin.opening.derivator ≠ coin.derivator := by
  intro shifted coins
  obtain ⟨i, j, hinputs, hi, hj, hshifted⟩ := hw.inputs_shift_ideal
  have hcommitment (input) (hinput : input ∈ [i, j]) :
      w.spentCommitment .ideal input = input.coin.commitment :=
    hw.spentCommitment_eq (Request.isGenuine_twoCoins .ideal true) (hinputs ▸ hinput)
  have hfirst : (firstCoin .ideal).commitment.derivator ≠ (firstCoin .ideal).derivator - 1 := by
    decide
  have hsecond : (secondCoin .ideal).commitment.derivator ≠ (secondCoin .ideal).derivator - -1 := by
    decide
  simp only [coins, shifted, secrets, hshifted, hinputs, List.map_cons, List.map_nil,
    List.forall_mem_cons, spentCommitment_shift, true_and]
  rw [hcommitment i (by simp), hcommitment j (by simp), ShieldedInput.shift, ShieldedInput.shift,
    hi, hj]
  exact ⟨hfirst, hsecond, List.forall_mem_nil _⟩

end Ideal

/-- The two coins are spent by two payments that are both accepted and reveal four different serial
numbers, because the second one moves its derivators by one and minus one. -/
theorem exists_spent_twice_ideal :
    let table := GeneratorTable.neutral Opening 128
    let ledger := Request.idealLedger.view
    ∃ (first second : Proof Opening) (secrets secrets' : Secrets),
      ((first.verify .ideal table ledger true 3).Ensures fun _ => True) ∧
      ((second.verify .ideal table ledger true 3).Ensures fun _ => True) ∧
      secrets.Explain .ideal ledger first ∧ secrets.SolveSerials .ideal first ∧
      secrets'.Explain .ideal ledger second ∧ secrets'.SolveSerials .ideal second ∧
      secrets.coins.map SpentCoin.opening = secrets'.coins.map SpentCoin.opening ∧
      (∀ coin ∈ secrets'.coins, coin.opening.derivator ≠ coin.derivator) ∧
      ∀ serial ∈ first.inputs.map Coin.serialNumber,
        serial ∉ second.inputs.map Coin.serialNumber := by
  intro table ledger
  obtain ⟨w, hw⟩ := exists_represents_ideal
  have hserials := hw.serialNumbers_ideal
  have hserials' := hw.serialNumbers_shift_ideal
  have hinputs : w.inputs ≠ [] := hw.inputs_ne_nil (List.cons_ne_nil _ _)
  have houtputs : w.outputs ≠ [] := hw.outputs_ne_nil (List.cons_ne_nil _ _)
  have hinputs' : (w.shift .ideal [1, -1]).inputs ≠ [] := by
    obtain ⟨i, j, -, -, -, hshifted⟩ := hw.inputs_shift_ideal
    exact hshifted ▸ List.cons_ne_nil _ _
  have hbase : Generators.ideal.privateKey ≠ 0 := by decide
  have hdivide := inv_smul_injective hbase
  obtain ⟨first, hfirst, haccepted, hexplain, hsolve⟩ :=
    hw.isProvable rfl (Request.isGenuine_twoCoins .ideal true) |>.exists_spending_ideal hinputs
      houtputs (hserials ▸ List.Nodup.map hdivide (by decide))
  obtain ⟨second, hsecond, haccepted', hexplain', hsolve'⟩ :=
    hw.isProvable_shift_ideal.exists_spending_ideal hinputs' houtputs
      (hserials' ▸ List.Nodup.map hdivide (by decide))
  obtain ⟨hopenings, hderivators⟩ := hw.openings_shift_ideal
  refine ⟨first, second, _, _, haccepted, haccepted', hexplain, hsolve, hexplain', hsolve',
    hopenings, hderivators, ?_⟩
  rw [hfirst, hserials, hsecond, hserials', List.forall_mem_map]
  intro x hx hmem
  obtain ⟨y, hy, hxy⟩ := List.mem_map.mp hmem
  have hne : ∀ x ∈ ([3 + 5, 3 + 6] : List Scalar),
      ∀ y ∈ ([3 + (5 - 1), 3 + (6 - -1)] : List Scalar), y ≠ x := by decide
  exact hne x hx y hy (hdivide hxy)

end ShieldedWitness

end ConfidentialPayment.Payment
