import Mathlib.Algebra.Module.Basic
import ConfidentialPayment.Proofs.Coin
import ConfidentialPayment.Proofs.Payment.Provable
import ConfidentialPayment.Proofs.Suite.Ideal

/-!
# ConfidentialPayment.Proofs.Payment.Completeness

Honest payments are accepted.

A sender whose coins are genuine and whose view of the ledger is right can prove every payment that
it can make a witness of, and every verifier accepts it, whatever both of them draw
(`Witness.prove_ensures_accepted`). For a private payment it is enough that the witness is provable
(`ShieldedWitness.Represents.isProvable`): its ring members open because the coins are genuine, and
its value commitments balance because the amounts of the request do.
-/

namespace ConfidentialPayment.Payment

variable {P : Type} [Suite P] {gens : Generators P}

/-! ## Requests -/

/-- The ledger has what a request says of it: the members of the rings under their numbers, and the
commitments of transparent inputs. -/
def Request.AgreesWith (r : Request P) (ledger : Ledger.View P) : Prop :=
  if r.isPrivate then
    ∀ entry ∈ r.ringIndices.zip r.ring, ledger.commitmentAt entry.1 = some entry.2
  else
    ∀ coin ∈ r.inputs, ledger.contains coin.commitment = true

/-- No challenge of the range proof of a payment, if there is one, is zero. -/
def Proof.HasNonzeroChallenges (table : GeneratorTable P) (proof : Proof P) : Prop :=
  ∀ range ∈ proof.range, (range.challenges table).1.y ≠ 0 ∧
    ∀ x ∈ range.roundChallenges table, x ≠ 0

variable {table : GeneratorTable P} {ledger : Ledger.View P} {r : Request P}

omit [Suite P] in
/-- The total of the amounts is the total that the payees ask for. -/
theorem map_amount_toNat {amounts : List UInt64} (h : amounts = r.payees.map Payee.amount) :
    (amounts.map UInt64.toNat).sum = (r.payees.map fun payee => payee.amount.toNat).sum := by
  rw [h, List.map_map]
  rfl

variable [LawfulGroup P]

/-! ## Transparent payments -/

section Transparent

variable {w : TransparentWitness P}

/-- The serial number of a genuine coin is proved so that the verifier accepts it. -/
theorem TransparentWitness.verify_proveSerial {coin : Coin P}
    (hcoin : coin.IsGenuine gens w.privateKey) (tape : RandomSource) :
    (((w.proveSerial gens coin).run tape).1).verify gens (revealedStatement coin) = .ok () := by
  have hstatement : revealedStatement coin =
      ⟨coin.serialNumber, w.privateKey • gens.privateKey, coin.derivator⟩ := by
    rw [revealedStatement, hcoin.publicKey]
  rw [hstatement]
  exact SerialNumber.Revealed.verify_proveWith _ rfl hcoin.smul_serialNumber

/-- A proved payment of genuine coins is accepted if its outputs are committed to and its amounts
balance. -/
theorem TransparentWitness.verify_prove_of_balance {fee : UInt64}
    (hgenuine : ∀ coin ∈ w.inputs, coin.IsGenuine gens w.privateKey)
    (hledger : ∀ coin ∈ w.inputs, ledger.contains coin.commitment = true)
    (houtputs : ∀ o ∈ w.outputs, o.coin.isCommitted gens = true)
    (hlt : totalValue w.inputs < UInt64.size)
    (hbalance : totalValue w.inputs =
      fee.toNat + totalValue (w.outputs.map OutputCoin.coin)) (tape : RandomSource) :
    (((w.prove gens).run tape).1).verifyTransparent gens ledger fee = .ok () := by
  have hserials : List.Forall₂
      (fun coin serial => serial.verify gens (revealedStatement coin) = .ok ()) w.inputs
      ((w.inputs.mapM (w.proveSerial gens)).run tape).1 :=
    Draw.forall₂_mapM (fun coin hcoin tape => verify_proveSerial (hgenuine coin hcoin) tape) tape
  have hprove : ((w.prove gens).run tape).1 =
      { revealedSerials := ((w.inputs.mapM (w.proveSerial gens)).run tape).1
        inputs := w.inputs, outputs := w.outputs } := rfl
  rw [hprove]
  refine Proof.verifyTransparent_eq_ok_iff.mpr ⟨?_, ?_, houtputs, hlt, hbalance⟩
  · simp [Proof.isTransparent, hserials.length_eq]
  · rintro ⟨coin, serial⟩ hinput
    have hcoin : coin ∈ w.inputs := (List.of_mem_zip hinput).1
    exact ⟨(hgenuine coin hcoin).committed, hledger coin hcoin,
      (List.forall₂_iff_zip.mp hserials).2 hinput⟩

/-- The proved payment of a request is accepted. -/
theorem TransparentWitness.verify_prove (hw : w.Represents gens r)
    (hbalance : r.checkBalance = .ok ())
    (hgenuine : ∀ coin ∈ r.inputs, coin.IsGenuine gens r.privateKey)
    (hledger : ∀ coin ∈ r.inputs, ledger.contains coin.commitment = true) (tape : RandomSource) :
    (((w.prove gens).run tape).1).verifyTransparent gens ledger r.fee = .ok () := by
  obtain ⟨-, -, -, hlt, htotal⟩ := Request.checkBalance_eq_ok hbalance
  have hpaid : totalValue (w.outputs.map OutputCoin.coin) =
      (r.payees.map fun payee => payee.amount.toNat).sum := by
    rw [← map_amount_toNat hw.amounts, totalValue, List.map_map, List.map_map]
    rfl
  refine w.verify_prove_of_balance ?_ ?_ hw.outputs ?_ ?_ tape
  · rwa [hw.inputs, hw.privateKey]
  · rwa [hw.inputs]
  · rwa [hw.inputs]
  · rw [hw.inputs, htotal, hpaid, Nat.add_comm]

omit [LawfulGroup P] in
/-- A transparent payment passes the checks of its coins. -/
theorem TransparentWitness.checkCoins_prove (hw : w.Represents gens r) (hinputs : r.inputs ≠ [])
    (hpayees : r.payees ≠ []) (hserials : (r.inputs.map Coin.serialNumber).Nodup)
    (tape : RandomSource) : (((w.prove gens).run tape).1).checkCoins = .ok () := by
  have hinputs' : w.inputs ≠ [] := by rwa [hw.inputs]
  have houtputs : w.outputs ≠ [] := by
    intro hnil
    have hamounts := hw.amounts
    rw [hnil, List.map_nil] at hamounts
    exact hpayees (List.map_eq_nil_iff.mp hamounts.symm)
  have hserials' : (w.inputs.map Coin.serialNumber).Nodup := by rwa [hw.inputs]
  exact Proof.checkCoins_eq_ok hinputs' houtputs hserials'

/-- One genuine coin can be paid to one output of the same value, and the payment is accepted. -/
theorem TransparentWitness.exists_single (table : GeneratorTable P) (ledger : Ledger.View P)
    {sk : Scalar} {input : Coin P} {output : OutputCoin P} (hgenuine : input.IsGenuine gens sk)
    (hledger : ledger.contains input.commitment = true)
    (houtput : output.coin.isCommitted gens = true) (hvalue : input.value = output.coin.value) :
    ∃ proof : Proof P, proof.inputs = [input] ∧ proof.outputs = [output] ∧
      (proof.verify gens table ledger false 0).Ensures fun _ => True := by
  let w : TransparentWitness P := ⟨sk, [input], [output]⟩
  let tape : RandomSource := ⟨fun _ => .replicate 64 0, 0⟩
  have hspent : totalValue [input] = input.value.toNat := Nat.add_zero _
  have hpaid : totalValue [output.coin] = output.coin.value.toNat := Nat.add_zero _
  have hcoins : ((w.prove gens).run tape).1.checkCoins = .ok () :=
    Proof.checkCoins_eq_ok (List.cons_ne_nil _ _) (List.cons_ne_nil _ _) (List.nodup_singleton _)
  have haccepted : ((w.prove gens).run tape).1.verifyTransparent gens ledger 0 = .ok () := by
    refine w.verify_prove_of_balance (List.forall_mem_singleton.mpr hgenuine)
      (List.forall_mem_singleton.mpr hledger) (List.forall_mem_singleton.mpr houtput) ?_ ?_ tape
    · exact hspent ▸ input.value.toNat_lt
    · show totalValue [input] = 0 + totalValue [output.coin]
      rw [hspent, hpaid, hvalue, Nat.zero_add]
  refine ⟨((w.prove gens).run tape).1, rfl, rfl, ?_⟩
  refine .bind (Q := fun _ => True) (.ofExcept hcoins trivial) fun _ _ => ?_
  rw [if_neg Bool.false_ne_true]
  exact .ofExcept haccepted trivial

end Transparent

/-! ## Private payments -/

section Shielded

variable {w : ShieldedWitness P} {input : ShieldedInput P}

/-- An input spends the commitment of its coin, if this is the one that the other fields of the coin
imply under the key of the payment. -/
theorem ShieldedWitness.Represents.spentCommitment_eq_of_hides (hw : w.Represents gens r)
    {source : RingInput P} (hhides : input.Hides gens w.inputKey source)
    (hcommitted : input.coin.isCommitted gens = true)
    (hkey : input.coin.publicKey = r.privateKey • gens.privateKey) :
    w.spentCommitment gens input = input.coin.commitment := by
  rw [spentCommitment, Coin.isCommitted_iff.mp hcommitted, hhides.blinding, hhides.value,
    hhides.derivator, hw.key, hw.shard, Coin.shard, hkey, hw.privateKey]
  simp only [inputSum, Generators.commitTo_eq, Generators.get, Generators.commitDerivator,
    ShieldedWitness.inputKey]
  module

/-- The member of its ring that such an input spends opens to zero. -/
theorem ShieldedWitness.Represents.opens_membership_of_hides (hw : w.Represents gens r)
    {source : RingInput P} (hhides : input.Hides gens w.inputKey source)
    (hcommitted : input.coin.isCommitted gens = true)
    (hkey : input.coin.publicKey = r.privateKey • gens.privateKey) :
    input.membership.Opens gens := by
  unfold Membership.Witness.Opens
  rw [hhides.ring, List.getElem?_map, hhides.member, Option.map_some,
    ← hw.spentCommitment_eq_of_hides hhides hcommitted hkey]
  exact congrArg some (add_sub_cancel_right ..)

/-- The shown parts of a genuine input and its remainder are the commitment of the coin. -/
theorem ShieldedWitness.Represents.spentCommitment_eq (hw : w.Represents gens r)
    (hgenuine : ∀ coin ∈ r.inputs, coin.IsGenuine gens r.privateKey) (hinput : input ∈ w.inputs) :
    w.spentCommitment gens input = input.coin.commitment := by
  obtain ⟨hmem, source, hhides⟩ := hw.exists_hides hinput
  have hcoin := hgenuine input.coin hmem
  exact hw.spentCommitment_eq_of_hides hhides hcoin.committed hcoin.publicKey

/-- A genuine input gives an opening of its ring member. -/
theorem ShieldedWitness.Represents.opens_membership (hw : w.Represents gens r)
    (hgenuine : ∀ coin ∈ r.inputs, coin.IsGenuine gens r.privateKey) (hinput : input ∈ w.inputs) :
    input.membership.Opens gens := by
  obtain ⟨hmem, source, hhides⟩ := hw.exists_hides hinput
  have hcoin := hgenuine input.coin hmem
  exact hw.opens_membership_of_hides hhides hcoin.committed hcoin.publicKey

/-- The openings of an input fit the statement of its serial number proof. -/
theorem ShieldedWitness.Represents.opens_serialWitness (hw : w.Represents gens r)
    (hgenuine : ∀ coin ∈ r.inputs, coin.IsGenuine gens r.privateKey) (hinput : input ∈ w.inputs) :
    (w.serialWitness input).Opens gens (w.serialStatement input) := by
  obtain ⟨hmem, source, hhides⟩ := hw.exists_hides hinput
  have hcoin := hgenuine input.coin hmem
  refine ⟨hw.key, hhides.derivator, ?_⟩
  show (w.privateKey + input.coin.derivator) • input.coin.serialNumber = gens.privateKey
  rw [hw.privateKey]
  exact hcoin.smul_serialNumber

/-- The value commitments balance, because the amounts and the blindings do. -/
theorem ShieldedWitness.Represents.sum_values (hw : w.Represents gens r)
    (hbalance : r.checkBalance = .ok ()) :
    (w.inputs.map ShieldedInput.value).sum =
      (w.outputs.map ShieldedOutput.value).sum + Scalar.ofUInt64 r.fee • gens.value := by
  obtain ⟨-, -, -, -, htotal⟩ := Request.checkBalance_eq_ok hbalance
  have hinputs : w.inputs.map ShieldedInput.value = w.inputs.map fun input =>
      gens.commitTo .value (.ofUInt64 input.coin.value) input.valueBlinding :=
    List.map_congr_left fun input hinput =>
      (hw.exists_hides hinput).2.choose_spec.value
  have houtputs : w.outputs.map ShieldedOutput.value = w.outputs.map fun o =>
      gens.commitTo .value (.ofUInt64 o.output.coin.value) o.output.coin.blinding :=
    List.map_congr_left fun o ho => (hw.outputs o ho).value
  have hspent : (w.inputs.map fun input => Scalar.ofUInt64 input.coin.value).sum =
      (totalValue r.inputs : Scalar) := by
    rw [totalValue, ← hw.map_coin_inputs, List.map_map]
    exact Scalar.sum_ofUInt64 w.inputs fun input => input.coin.value
  have hpaid : (w.outputs.map fun o => Scalar.ofUInt64 o.output.coin.value).sum =
      ((r.payees.map fun payee => payee.amount.toNat).sum : ℕ) := by
    rw [← map_amount_toNat hw.amounts, List.map_map]
    exact Scalar.sum_ofUInt64 w.outputs fun o => o.output.coin.value
  rw [hinputs, houtputs, Generators.sum_commitTo, Generators.sum_commitTo, hw.blindings, hspent,
    hpaid, htotal, Nat.cast_add, Generators.commitTo_eq, Generators.commitTo_eq,
    Scalar.ofUInt64_eq_natCast]
  simp only [Generators.get]
  module

/-- A witness of genuine coins can be proved. -/
theorem ShieldedWitness.Represents.isProvable (hw : w.Represents gens r)
    (hbalance : r.checkBalance = .ok ())
    (hgenuine : ∀ coin ∈ r.inputs, coin.IsGenuine gens r.privateKey) : w.IsProvable gens r where
  rings := hw.rings
  ringIndices := hw.ringIndices
  shard := isShardCommitment_iff.mpr ⟨_, Nat.mod_lt _ (by decide), hw.shard.symm⟩
  inputRings := hw.inputs.imp fun _ _ h => h.ring
  memberships := fun _ hinput => hw.opens_membership hgenuine hinput
  serials := fun _ hinput => hw.opens_serialWitness hgenuine hinput
  outputs := hw.outputs
  range := by
    rw [hw.rangeValues, hw.rangeBlindings, RangeProof.valueCommitments, List.zipWith_map,
      List.zipWith_self]
    exact List.map_congr_left fun o ho => (hw.outputs o ho).value.symm
  count := by rw [hw.rangeValues, hw.amounts, List.length_map]
  balance := hw.sum_values hbalance

end Shielded

/-! ## All payments -/

/-- Completeness: if the coins of a request are genuine and have different serial numbers, the
ledger has what the request says of it, and the table is large enough for the outputs of a private
payment, then a witness of the request can be proved, and the payment is accepted, whatever prover
and verifier draw. Only the challenges of the range proof must not be zero. -/
theorem Witness.prove_ensures_accepted {w : Witness P} {tape rest : RandomSource}
    (hw : (Witness.ofRequest gens r).Gives tape w rest)
    (hgenuine : ∀ coin ∈ r.inputs, coin.IsGenuine gens r.privateKey)
    (hserials : (r.inputs.map Coin.serialNumber).Nodup) (hledger : r.AgreesWith ledger)
    (hcapacity : r.isPrivate = true →
      RangeProof.bitCount * pad r.payees.length ≤ table.capacity) :
    (w.prove gens table).Ensures fun proof => proof.HasNonzeroChallenges table →
      (proof.verify gens table ledger r.isPrivate r.fee).Ensures fun _ => True := by
  obtain ⟨hbalance, hrepresents⟩ := Witness.represents_of_ofRequest hw
  obtain ⟨hinputs, hpayees, -⟩ := Request.checkBalance_eq_ok hbalance
  unfold Request.AgreesWith at hledger
  cases w with
  | transparent w =>
    obtain ⟨hmode, hw⟩ := hrepresents
    rw [hmode, if_neg Bool.false_ne_true] at hledger
    refine .lift fun tape _ => ?_
    have hcoins := w.checkCoins_prove hw hinputs hpayees hserials tape
    refine .bind (Q := fun _ => True) (.ofExcept hcoins trivial) fun _ _ => ?_
    rw [hmode, if_neg Bool.false_ne_true]
    exact .ofExcept (w.verify_prove hw hbalance hgenuine hledger tape) trivial
  | shielded w =>
    obtain ⟨hmode, hw⟩ := hrepresents
    rw [hmode, if_pos rfl] at hledger
    have hprovable := hw.isProvable hbalance hgenuine
    refine (hprovable.prove_ensures (hcapacity hmode)).mono ?_
    rintro _ ⟨memberships, hiddenSerials, range, outputs, rfl, hp⟩ hchallenges
    have hcoins := ShieldedWitness.checkCoins_assemble (hw.inputs_ne_nil hinputs)
      (hw.outputs_ne_nil hpayees) (hw.nodup_serialNumbers hserials) hp
    refine .bind (Q := fun _ => True) (.ofExcept hcoins trivial) fun _ _ => ?_
    rw [hmode, if_pos rfl]
    obtain ⟨hy, hxs⟩ := hchallenges range rfl
    exact hprovable.verifyPrivate_assemble hledger hp (hp.range hy hxs)

/-! ## A payment of two coins -/

section TwoCoins

variable (gens : Generators P)

/-- The first of two coins. -/
def firstCoin : Coin P :=
  { Coin.spendable gens (.ofNat 3) (.ofNat 5) (.ofNat 2) 10 with info := [1, 2, 3] }

/-- The second of two coins. -/
def secondCoin : Coin P :=
  { Coin.spendable gens (.ofNat 3) (.ofNat 6) (.ofNat 4) 20 with info := [4] }

/-- A commitment to hide among. -/
def decoy (value : ℕ) : P := gens.commitTo .value (.ofNat value) 1

/-- The ring of the first coin, which is in the place 2. -/
def firstRing : List P :=
  [1, 2].map (decoy gens) ++ (firstCoin gens).commitment :: [3, 4, 5, 6, 7].map (decoy gens)

/-- The ring of the second coin, which is in the last place. -/
def secondRing : List P :=
  [8, 9, 10, 11, 12, 13, 14].map (decoy gens) ++ [(secondCoin gens).commitment]

/-- A payment of the two coins to two payees, one of whom gets a message. -/
def Request.twoCoins (isPrivate : Bool) : Request P where
  isPrivate := isPrivate
  privateKey := .ofNat 3
  inputs := [firstCoin gens, secondCoin gens]
  payees :=
    [⟨Scalar.ofNat 8 • gens.privateKey, Scalar.ofNat 11 • gens.privateKey, 12, [1, 2]⟩,
     ⟨Scalar.ofNat 9 • gens.privateKey, Scalar.ofNat 13 • gens.privateKey, 15, []⟩]
  ring := firstRing gens ++ secondRing gens
  ringIndices := [0, 1, 2, 3, 4, 5, 6, 7] ++ [8, 9, 10, 11, 12, 13, 14, 15]
  positions := [2, 7]
  fee := 3

variable (isPrivate : Bool)

omit [LawfulGroup P] in
/-- Each of the two coins has its own ring and its own place in it. -/
theorem Request.ringInputs_twoCoins : (Request.twoCoins gens isPrivate).ringInputs =
    [⟨firstCoin gens, firstRing gens, [0, 1, 2, 3, 4, 5, 6, 7], 2⟩,
      ⟨secondCoin gens, secondRing gens, [8, 9, 10, 11, 12, 13, 14, 15], 7⟩] := by
  have hchunks {α : Type} {as bs : List α} (has : as.length = Membership.ringSize)
      (hbs : bs.length = Membership.ringSize) :
      Bytes.chunks Membership.ringSize (as ++ bs) = [as, bs] := by
    have hlast := chunks_append (k := Membership.ringSize) (by decide) hbs []
    rw [List.append_nil, Bytes.chunks] at hlast
    rw [chunks_append (by decide) has, hlast]
  unfold ringInputs twoCoins
  dsimp only
  rw [hchunks rfl rfl, hchunks rfl rfl]
  rfl

omit [LawfulGroup P] in
/-- The two coins can be paid out, in either mode. -/
theorem Request.isComplete_twoCoins : (Request.twoCoins gens isPrivate).IsComplete where
  balance := rfl
  messages := by simp [twoCoins, Coin.maxInfoLength]
  rings := by
    intro _
    constructor <;> simp [twoCoins, firstRing, secondRing, Membership.ringSize,
      Membership.digitCount]
  members := by
    intro _
    rw [ringInputs_twoCoins, List.forall_mem_cons, List.forall_mem_singleton]
    exact ⟨RingInput.check_eq_ok_iff.mpr ⟨show 2 < 8 by decide, rfl⟩,
      RingInput.check_eq_ok_iff.mpr ⟨show 7 < 8 by decide, rfl⟩⟩
  amounts := by simp [twoCoins]

omit [LawfulGroup P] in
/-- The infos of the two coins can be written. -/
theorem Request.length_info_twoCoins : ∀ coin ∈ (Request.twoCoins gens isPrivate).inputs,
    coin.info.length ≤ Coin.maxInfoLength :=
  List.forall_mem_cons.mpr
    ⟨show 3 ≤ 255 by decide, List.forall_mem_singleton.mpr (show 1 ≤ 255 by decide)⟩

/-- The first coin belongs to the private key. -/
theorem isGenuine_firstCoin : (firstCoin gens).IsGenuine gens (.ofNat 3) :=
  have hsum : Scalar.ofNat 3 + Scalar.ofNat 5 ≠ 0 := by decide
  (Coin.isGenuine_spendable hsum (.ofNat 2) 10).withInfo [1, 2, 3]

/-- The second coin belongs to the private key. -/
theorem isGenuine_secondCoin : (secondCoin gens).IsGenuine gens (.ofNat 3) :=
  have hsum : Scalar.ofNat 3 + Scalar.ofNat 6 ≠ 0 := by decide
  (Coin.isGenuine_spendable hsum (.ofNat 4) 20).withInfo [4]

/-- Both coins belong to the private key of the request. -/
theorem Request.isGenuine_twoCoins : ∀ coin ∈ (Request.twoCoins gens isPrivate).inputs,
    coin.IsGenuine gens (Request.twoCoins gens isPrivate).privateKey :=
  List.forall_mem_cons.mpr
    ⟨isGenuine_firstCoin gens, List.forall_mem_singleton.mpr (isGenuine_secondCoin gens)⟩

variable {gens}

/-- The coins have different derivators, so they have different serial numbers. -/
theorem Request.nodup_serialNumber_twoCoins (hbase : gens.privateKey ≠ 0) :
    ((Request.twoCoins gens isPrivate).inputs.map Coin.serialNumber).Nodup := by
  have hne : (firstCoin gens).serialNumber ≠ (secondCoin gens).serialNumber := by
    intro h
    have hderivators := derivator_eq_of_deriveSerial hbase (isGenuine_firstCoin gens).serialNumber
      (h ▸ (isGenuine_secondCoin gens).serialNumber)
    exact absurd hderivators (show Scalar.ofNat 5 ≠ Scalar.ofNat 6 by decide)
  simpa [twoCoins] using hne

end TwoCoins

/-- A ledger with the two rings. -/
def Request.idealLedger : Ledger Opening := .ofList (firstRing .ideal ++ secondRing .ideal)

/-- The ledger of the example contains both rings where the request says. -/
theorem Request.agreesWith_ideal (isPrivate : Bool) :
    (Request.twoCoins .ideal isPrivate).AgreesWith idealLedger.view := by
  cases isPrivate with
  | false =>
    show ∀ coin ∈ [firstCoin .ideal, secondCoin .ideal],
      idealLedger.view.contains coin.commitment = true
    decide +kernel
  | true =>
    show ∀ entry ∈ List.zip _ (firstRing .ideal ++ secondRing .ideal),
      idealLedger.view.commitmentAt entry.1 = some entry.2
    decide +kernel

/-- The two coins can be spent together, in a transparent payment as well as in a private one, where
no two members of their rings are the same. Every verifier accepts both payments. -/
theorem Witness.prove_ensures_accepted_ideal :
    let tape : RandomSource := ⟨fun _ => .replicate 64 0, 0⟩
    let table := GeneratorTable.neutral Opening 128
    (firstRing .ideal ++ secondRing .ideal).Nodup ∧
    ∀ isPrivate, ∃ w rest,
      (Witness.ofRequest .ideal (Request.twoCoins .ideal isPrivate)).Gives tape w rest ∧
      (w.prove .ideal table).Ensures fun proof =>
        (proof.verify .ideal table Request.idealLedger.view isPrivate 3).Ensures
          fun _ => True := by
  intro tape table
  refine ⟨by decide +kernel, fun isPrivate => ?_⟩
  obtain ⟨w, rest, hw, -⟩ :=
    Witness.ofRequest_ensures .ideal (Request.isComplete_twoCoins .ideal isPrivate) tape
  have hcapacity : RangeProof.bitCount * pad 2 ≤ table.capacity := by
    rw [GeneratorTable.capacity_neutral]
    decide
  have haccepted := prove_ensures_accepted hw (Request.isGenuine_twoCoins .ideal isPrivate)
    (Request.nodup_serialNumber_twoCoins isPrivate (by decide)) (Request.agreesWith_ideal isPrivate)
    fun _ => hcapacity
  refine ⟨w, rest, hw, haccepted.mono fun proof h => h fun range _ => ?_⟩
  exact RangeProof.challenges_ne_zero (fun _ _ => Scalar.one_ne_zero') table range

end ConfidentialPayment.Payment
