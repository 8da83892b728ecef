import Mathlib.Algebra.Module.Basic
import ConfidentialPayment.Proofs.Payment.Completeness

/-!
# ConfidentialPayment.Proofs.Payment.Revaluation

At which value transparent coins are spent.

The commitment of a coin is its public key plus commitments to its attributes, and the public key of
an output can be any point. If it has a component along the value generator, then another coin with
the same commitment belongs to an honest key and is worth more. So a coin is spent at the value that
it was created with exactly if there is no such component
(`Proof.value_eq_iff_of_commitment_eq`), and verification does not exclude one
(`Proof.exists_revalued_ideal`).
-/

namespace ConfidentialPayment.Payment

variable {P : Type} [Suite P] {gens : Generators P} {table : GeneratorTable P}
  {ledger ledger' : Ledger.View P} {fee fee' : UInt64}

/-- All coins of an accepted transparent payment are the ones that they are committed as. -/
theorem Proof.isCommitted_of_verify {proof : Proof P} {tape rest : RandomSource}
    (h : (proof.verify gens table ledger false fee).Gives tape () rest) :
    (∀ input ∈ proof.inputs, input.isCommitted gens = true) ∧
      ∀ output ∈ proof.outputs, output.coin.isCommitted gens = true := by
  obtain ⟨⟨⟩, _, -, hmode⟩ := DrawExcept.gives_bind.mp h
  rw [if_neg Bool.false_ne_true, DrawExcept.gives_ofExcept] at hmode
  obtain ⟨hparts, hinputs, houtputs, -⟩ := verifyTransparent_eq_ok_iff.mp hmode.1
  have hlength : proof.inputs.length ≤ proof.revealedSerials.length := by
    simp only [isTransparent, Bool.and_eq_true, decide_eq_true_eq] at hparts
    exact hparts.1.1.1.ge
  refine ⟨fun input hinput => ?_, houtputs⟩
  rw [← List.map_fst_zip hlength] at hinput
  obtain ⟨pair, hpair, rfl⟩ := List.mem_map.mp hinput
  exact (hinputs pair hpair).committed

section Lawful

variable [LawfulGroup P]

/-- What two coins with one commitment have between them. -/
theorem publicKey_eq_of_commitment_eq {input output : Coin P} {sk : Scalar}
    (hinput : input.isCommitted gens = true) (houtput : output.isCommitted gens = true)
    (hkey : input.publicKey = sk • gens.privateKey)
    (hsame : input.commitment = output.commitment) :
    output.publicKey =
      gens.commit (⟨sk, 0, 0, 0, 0⟩ + input.opening - output.opening) := by
  have hsum : input.publicKey + gens.commit input.opening =
      output.publicKey + gens.commit output.opening :=
    (of_decide_eq_true hinput).trans (hsame.trans (of_decide_eq_true houtput).symm)
  have hopened : gens.commit ⟨sk, 0, 0, 0, 0⟩ = input.publicKey := by
    rw [hkey, Generators.commit_eq]
    module
  rw [Generators.commit_sub, Generators.commit_add, hopened, hsum, add_sub_cancel_right]

/-- A coin that an accepted transparent payment spends, and that has the commitment of an output of
another accepted transparent payment, has the value of that output exactly if the public key of the
output has no component along the value generator. -/
theorem Proof.value_eq_iff_of_commitment_eq (hgens : LinearIndependent Scalar gens.get)
    {created spending : Proof P} {tape tape' rest rest' : RandomSource}
    (hcreated : (created.verify gens table ledger false fee).Gives tape () rest)
    (hspending : (spending.verify gens table ledger' false fee').Gives tape' () rest')
    {output : OutputCoin P} (houtput : output ∈ created.outputs)
    {input : Coin P} (hinput : input ∈ spending.inputs) {sk : Scalar}
    (hkey : input.publicKey = sk • gens.privateKey)
    (hsame : input.commitment = output.coin.commitment) :
    input.value = output.coin.value ↔
      ∃ o : Opening, o.value = 0 ∧ output.coin.publicKey = gens.commit o := by
  have hpublic := publicKey_eq_of_commitment_eq
    ((isCommitted_of_verify hspending).1 input hinput)
    ((isCommitted_of_verify hcreated).2 output houtput) hkey hsame
  have hvalue : (⟨sk, 0, 0, 0, 0⟩ + input.opening - output.coin.opening).value =
      Scalar.ofUInt64 input.value - Scalar.ofUInt64 output.coin.value :=
    congrArg (· - _) (zero_add _)
  constructor
  · intro heq
    refine ⟨_, ?_, hpublic⟩
    rw [hvalue, heq, sub_self]
  · rintro ⟨o, hzero, ho⟩
    rw [hpublic] at ho
    rw [← Generators.commit_injective hgens ho, hvalue, sub_eq_zero] at hzero
    exact Scalar.ofUInt64_injective hzero

end Lawful

/-- An output of the ideal ledger is spent at the value that it was created with. -/
theorem Proof.value_eq_iff_of_commitment_eq_ideal :
    let table := GeneratorTable.neutral Opening 128
    let ledger := Ledger.ofList [(firstCoin .ideal).commitment]
    ∃ (created spending : Proof Opening) (tape rest rest' : RandomSource)
      (output : OutputCoin Opening) (input : Coin Opening),
      (created.verify .ideal table ledger.view false 0).Gives tape () rest ∧
      (spending.verify .ideal table (ledger.push output.coin.commitment).2.view false 0).Gives
        tape () rest' ∧
      created.outputs = [output] ∧ spending.inputs = [input] ∧
      input.commitment = output.coin.commitment ∧ input.value = output.coin.value := by
  intro table ledger
  let tape : RandomSource := ⟨fun _ => .replicate 64 0, 0⟩
  let coin : Coin Opening := Coin.spendable .ideal 3 7 2 10
  let output : OutputCoin Opening := .plain coin
  have hfirst : (firstCoin .ideal).IsGenuine .ideal 3 := isGenuine_firstCoin .ideal
  have hcoin : coin.IsGenuine .ideal 3 := Coin.isGenuine_spendable (by decide) ..
  obtain ⟨created, -, houtputs, haccepted⟩ := TransparentWitness.exists_single table ledger.view
    hfirst (by decide) (show output.coin.isCommitted .ideal = true from hcoin.committed) rfl
  obtain ⟨spending, hinputs, -, haccepted'⟩ := TransparentWitness.exists_single table
    (ledger.push coin.commitment).2.view hcoin (by decide)
    (show output.coin.isCommitted .ideal = true from hcoin.committed) rfl
  obtain ⟨⟨⟩, rest, hcreated, -⟩ := haccepted tape
  obtain ⟨⟨⟩, rest', hspending, -⟩ := haccepted' tape
  have houtput : output ∈ created.outputs := houtputs ▸ List.mem_cons_self ..
  have hinput : coin ∈ spending.inputs := hinputs ▸ List.mem_cons_self ..
  have hvalue := value_eq_iff_of_commitment_eq Generators.linearIndependent_ideal hcreated
    hspending houtput hinput hcoin.publicKey rfl
  exact ⟨created, spending, tape, rest, rest', output, coin, hcreated, hspending, houtputs,
    hinputs, rfl, hvalue.mpr ⟨⟨3, 0, 0, 0, 0⟩, rfl, by decide⟩⟩

/-! ## Coins with one commitment and two values -/

section Lawful

variable [LawfulGroup P]

/-- The coin of another value that has the same commitment: the difference is hidden in its public
key. -/
def revalue (gens : Generators P) (value : UInt64) (coin : Coin P) : Coin P :=
  Coin.commit gens { coin with
    publicKey := coin.publicKey +
      (Scalar.ofUInt64 coin.value - Scalar.ofUInt64 value) • gens.value
    value }

/-- A coin that is revalued in its shard keeps its commitment. -/
theorem commitment_revalue {coin : Coin P} {value : UInt64}
    (hcommitted : coin.isCommitted gens = true)
    (hshard : (revalue gens value coin).shard = coin.shard) :
    (revalue gens value coin).commitment = coin.commitment := by
  have hshard' : shardOf (coin.publicKey +
      (Scalar.ofUInt64 coin.value - Scalar.ofUInt64 value) • gens.value) =
        shardOf coin.publicKey := hshard
  rw [← of_decide_eq_true hcommitted, revalue, Coin.commit, Coin.expectedCommitment,
    Coin.expectedCommitment, Generators.commit_eq, Generators.commit_eq]
  simp only [Coin.opening, Coin.shard, hshard']
  module

end Lawful

/-- A coin that is worth a million more than what it is paid for. -/
def dearCoin : Coin Opening := Coin.spendable .ideal (.ofNat 3) (.ofNat 7) (.ofNat 2) 1000010

/-- The coin is created at the value 10 and spent at the value 1000010, and both payments are
accepted. -/
theorem Proof.exists_revalued_ideal :
    let table := GeneratorTable.neutral Opening 128
    let ledger := Ledger.ofList [(firstCoin .ideal).commitment]
    ∃ (created spending : Proof Opening) (output : OutputCoin Opening) (input : Coin Opening),
      ((created.verify .ideal table ledger.view false 0).Ensures fun _ => True) ∧
      ((spending.verify .ideal table (ledger.push output.coin.commitment).2.view false 0).Ensures
        fun _ => True) ∧
      created.outputs = [output] ∧ spending.inputs = [input] ∧
      input.IsGenuine .ideal 3 ∧ input.commitment = output.coin.commitment ∧
      output.coin.value = 10 ∧ input.value = 1000010 := by
  intro table ledger
  have hfirst : (firstCoin .ideal).IsGenuine .ideal 3 := isGenuine_firstCoin .ideal
  have hdear : dearCoin.IsGenuine .ideal 3 := Coin.isGenuine_spendable (by decide) ..
  have hsame : (revalue .ideal 10 dearCoin).commitment = dearCoin.commitment :=
    commitment_revalue hdear.committed (by decide)
  let cheap : OutputCoin Opening := .plain (revalue .ideal 10 dearCoin)
  let dear : OutputCoin Opening := .plain dearCoin
  have hcheap : cheap.coin.isCommitted .ideal = true := Coin.isCommitted_commit _
  obtain ⟨created, -, houtputs, haccepted⟩ :=
    TransparentWitness.exists_single table ledger.view hfirst (by decide) hcheap rfl
  obtain ⟨spending, hinputs, -, haccepted'⟩ := TransparentWitness.exists_single table
    (ledger.push cheap.coin.commitment).2.view hdear (by decide)
    (show dear.coin.isCommitted .ideal = true from hdear.committed) rfl
  exact ⟨created, spending, cheap, dearCoin, haccepted, haccepted', houtputs, hinputs, hdear,
    hsame.symm, rfl, rfl⟩

end ConfidentialPayment.Payment
