import ConfidentialPayment.Proofs.Coin.Decryption
import ConfidentialPayment.Proofs.Payment.Balance
import ConfidentialPayment.Proofs.Payment.RoundTrip

/-!
# ConfidentialPayment.Proofs.Payment.Recovery

What the payees of a private payment get from its bytes.

A private payment shows of its outputs neither value nor blinding, so its payees depend on the
ciphertexts. The outputs of a witness go to the payees of its request in their order, and proving
encrypts each of them to the key that it goes to. Outputs of a witness are committed to, which is
what decryption checks, so every payee recovers its coin (`payees_recover_coins`).
-/

namespace ConfidentialPayment.Payment

variable {P : Type} [Suite P] [LawfulGroup P] {gens : Generators P} {table : GeneratorTable P}
  {r : Request P}

/-- The check at the end of decryption passes, since the coin was committed to with its blinding. -/
theorem ShieldedOutput.GoesTo.decrypt_eq {o : ShieldedOutput P} {payee : Payee P}
    {encrypted : OutputCoin P} {key : Scalar} (h : o.GoesTo payee) (hcommits : o.Commits gens)
    (hkey : payee.transmissionKey = key • gens.privateKey)
    (hencrypted : o.output.IsEncryptedAs gens o.transmissionKey encrypted) :
    encrypted.decrypt gens key = .ok o.output.coin := by
  rw [h.transmissionKey, hkey] at hencrypted
  rw [hencrypted.decrypt_eq, if_pos hcommits.isCommitted]

/-- A private payment is read back as it was proved, with one output for each payee. The holder of
the key that an output is encrypted to decrypts it to the coin of the witness, which has the amount,
the public key and the message of the payee. The outputs themselves have lost their values and
blindings, and of every input only the serial number is left. -/
theorem payees_recover_coins [LawfulEncoding P] {w : Witness P} {proof : Proof P}
    {tape rest tape' rest' : RandomSource} (hprivate : r.isPrivate = true)
    (hw : (Witness.ofRequest gens r).Gives tape w rest)
    (hproof : (w.prove gens table).Gives tape' proof rest') :
    Proof.ofBytes proof.toBytes = .ok proof ∧
      w.outputs.length = r.payees.length ∧ proof.outputs.length = r.payees.length ∧
      (∀ (j : ℕ) (payee : Payee P) (key : Scalar), r.payees[j]? = some payee →
        payee.transmissionKey = key • gens.privateKey →
        ∃ output encrypted, w.outputs[j]? = some output ∧ proof.outputs[j]? = some encrypted ∧
          encrypted.decrypt gens key = .ok output.coin ∧ output.coin.Pays payee) ∧
      (∀ encrypted ∈ proof.outputs, encrypted.coin.value = 0 ∧ encrypted.coin.blinding = 0) ∧
      proof.inputs = r.inputs.map fun coin =>
        { (Coin.blank : Coin P) with serialNumber := coin.serialNumber } := by
  have hbalance := (Witness.represents_of_ofRequest hw).1
  obtain ⟨w, rfl, hrepresents⟩ := Witness.exists_shielded_of_ofRequest hprivate hw
  have hplain := List.forall_mem_map.mp (Witness.isPlain_of_ofRequest hw)
  have hwritable := w.isWritable_of_prove hrepresents hbalance hplain hproof
  have hgoesTo := forall₂_goesTo_of_ofRequest hw
  obtain ⟨_, _, _, outputs, rfl, -, -, -, hencrypted⟩ := w.assemble_of_prove hproof
  refine ⟨Proof.ofBytes_toBytes hwritable, ?_, ?_, fun j payee key hpayee hkey => ?_,
    fun encrypted hmem => ?_, ?_⟩
  · exact (List.length_map _).trans hgoesTo.length_eq.symm
  · exact hencrypted.length_eq.symm.trans hgoesTo.length_eq.symm
  · -- Payees, outputs of the witness and encrypted outputs match place by place.
    obtain ⟨o, ho, hpayee⟩ := exists_getElem?_of_forall₂ hgoesTo hpayee
    obtain ⟨encrypted, hat, hseal⟩ := exists_getElem?_of_forall₂ hencrypted ho
    have hcommits := hrepresents.outputs o (List.mem_of_getElem? ho)
    refine ⟨o.output, encrypted, ?_, hat, hpayee.decrypt_eq hcommits hkey hseal, hpayee.coin⟩
    rw [Witness.outputs, List.getElem?_map, ho]
    rfl
  · obtain ⟨o, -, hseal⟩ := exists_mem_of_forall₂ hencrypted encrypted hmem
    rw [hseal.coin]
    exact ⟨rfl, rfl⟩
  · rw [← hrepresents.map_coin_inputs, List.map_map]
    rfl

/-- Both payees of the two coins recover what they are paid. -/
theorem payees_recover_coins_logarithms :
    let gens := Generators.logarithms
    let table := GeneratorTable.neutral Logarithm 128
    let tape : RandomSource := ⟨fun _ => .replicate 64 0, 0⟩
    let r := Request.twoCoins gens true
    r.isPrivate = true ∧ ∃ w rest proof rest', (Witness.ofRequest gens r).Gives tape w rest ∧
      (w.prove gens table).Gives rest proof rest' ∧ Proof.ofBytes proof.toBytes = .ok proof ∧
      ∃ first second coin coin', proof.outputs = [first, second] ∧
        first.decrypt gens (.ofNat 11) = .ok coin ∧ coin.value = 12 ∧ coin.info = [1, 2] ∧
        second.decrypt gens (.ofNat 13) = .ok coin' ∧ coin'.value = 15 := by
  intro gens table tape r
  have hcapacity : RangeProof.vectorLength 2 ≤ table.capacity := by
    rw [GeneratorTable.capacity_neutral]
    decide
  obtain ⟨w, rest, proof, rest', hw, hproof⟩ :=
    (Request.isComplete_twoCoins gens true).exists_proof gens hcapacity tape
  obtain ⟨hread, -, hlength, hrecover, -, -⟩ := payees_recover_coins rfl hw hproof
  obtain ⟨first, second, houtputs⟩ := List.length_eq_two.mp hlength
  obtain ⟨output, encrypted, -, hat, hcoin, hpays⟩ := hrecover 0 _ (.ofNat 11) rfl rfl
  obtain ⟨output', encrypted', -, hat', hcoin', hpays'⟩ := hrecover 1 _ (.ofNat 13) rfl rfl
  rw [houtputs] at hat hat'
  obtain rfl := Option.some.inj hat
  obtain rfl := Option.some.inj hat'
  exact ⟨rfl, w, rest, proof, rest', hw, hproof, hread, first, second, output.coin, output'.coin,
    houtputs, hcoin, hpays.value, hpays.info, hcoin', hpays'.value⟩

end ConfidentialPayment.Payment
