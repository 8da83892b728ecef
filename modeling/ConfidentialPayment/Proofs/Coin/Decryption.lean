import ConfidentialPayment.Proofs.Coin
import ConfidentialPayment.Proofs.Coin.Output
import ConfidentialPayment.Proofs.Suite.Ideal

/-!
# ConfidentialPayment.Proofs.Coin.Decryption

What the holder of a receiving key gets from an output.

Decryption ends with one decision: the recovered blinding and value go into the coin, and the coin
is returned exactly if they open its commitment (`OutputCoin.decrypt_of_details`). So whatever the
ciphertext is and whatever the key, a coin that is returned differs from the stored one in its
blinding and its value at most (`OutputCoin.eq_of_decrypt`); and of an encrypted output the right
key recovers the blinding and the value that were encrypted.
-/

namespace ConfidentialPayment.OutputCoin

variable {P : Type} [Suite P] {gens : Generators P} {output encrypted : OutputCoin P}
  {coin : Coin P} {receivingKey : Scalar}

omit [Suite P] in
/-- Details read back. -/
theorem decode_details (coin : Coin P) :
    readDetails.decode (details coin) = .ok (coin.blinding, coin.value) := by
  have hdetails := (Reader.recognizes_scalar "randomness").andThen fun blinding =>
    (Reader.recognizes_uint64 "value").andThen fun value => Reader.recognizes_pure (blinding, value)
  refine hdetails.decode_eq_ok_iff.mpr ⟨_, _, _, rfl, ⟨_, _, [], rfl, ⟨rfl, rfl⟩, rfl⟩, ?_⟩
  rw [List.append_nil]
  rfl

/-- What is decrypted is put together with the public parts of the output, and kept only if the
result is committed. -/
theorem decrypt_of_details
    (h : Hybrid.decrypt receivingKey output.ciphertext = .ok (details coin)) :
    output.decrypt gens receivingKey =
      let restored := { output.coin with blinding := coin.blinding, value := coin.value }
      if restored.isCommitted gens then .ok restored else .error .decryptionFailed := by
  simp only [decrypt, h, bind, Except.bind, length_details, ne_eq, not_true_eq_false, if_false,
    decode_details]

/-- The check of the commitment is the last step, so it has passed. -/
theorem eq_of_decrypt (h : output.decrypt gens receivingKey = .ok coin) :
    coin.isCommitted gens = true ∧
      coin = { output.coin with blinding := coin.blinding, value := coin.value } := by
  obtain ⟨bs, -, h⟩ := bind_eq_ok.mp h
  split_ifs at h
  split at h
  · cases h
  · dsimp only at h
    split_ifs at h with hcommitted
    cases h
    exact ⟨hcommitted, rfl⟩

/-- An encrypted output gives its coin back to the owner of the key if the coin is committed, and is
refused otherwise. -/
theorem IsEncryptedAs.decrypt_eq [LawfulGroup P]
    (h : output.IsEncryptedAs gens (receivingKey • gens.privateKey) encrypted) :
    encrypted.decrypt gens receivingKey =
      if output.coin.isCommitted gens then .ok output.coin else .error .decryptionFailed := by
  rw [decrypt_of_details (h.ciphertext.decrypt_eq (details_ne_nil _)), h.coin]

/-- Encrypting any output to the key of a private key clears its details, and the private key gets
back the coin, also from the bytes of the encrypted output, exactly if the coin is committed to.
From no output whatsoever does any key get a coin that is not committed to, or one with other fields
than the blinding and the value changed. -/
theorem decrypt_encrypt [LawfulGroup P] [LawfulEncoding P] (gens : Generators P) :
    (∀ (output : OutputCoin P) (receivingKey : Scalar),
      (output.encrypt gens (receivingKey • gens.privateKey)).Ensures fun encrypted =>
        encrypted.coin = { output.coin with blinding := 0, value := 0 } ∧
          encrypted.ciphertext.toBytes.length = 120 ∧
          encrypted.decrypt gens receivingKey =
            (if output.coin.isCommitted gens then .ok output.coin else .error .decryptionFailed) ∧
          (output.coin.info.length ≤ Coin.maxInfoLength →
            OutputCoin.ofBytes encrypted.toBytes = .ok encrypted)) ∧
      ∀ (output : OutputCoin P) (receivingKey : Scalar) (coin : Coin P),
        output.decrypt gens receivingKey = .ok coin → coin.isCommitted gens = true ∧
          coin = { output.coin with blinding := coin.blinding, value := coin.value } := by
  refine ⟨fun output receivingKey => ?_, fun _ _ _ => eq_of_decrypt⟩
  refine (output.encrypt_ensures (receivingKey • gens.privateKey)).mono fun encrypted h => ?_
  exact ⟨h.coin, h.length_ciphertext, h.decrypt_eq,
    fun hinfo => ofBytes_toBytes (h.isWritable hinfo).1⟩

/-- A coin of value 30 comes back, and no coin comes back from the same output with another
value. -/
theorem decrypt_encrypt_logarithms :
    let gens := Generators.logarithms
    let coin := Coin.spendable gens (.ofNat 3) (.ofNat 5) (.ofNat 7) 30
    let key : Scalar := .ofNat 11
    let tape : RandomSource := ⟨fun _ => .replicate 64 0, 0⟩
    coin.info.length ≤ Coin.maxInfoLength ∧
      (∃ encrypted rest,
        ((plain coin).encrypt gens (key • gens.privateKey)).Gives tape encrypted rest ∧
        encrypted.coin.value = 0 ∧ OutputCoin.ofBytes encrypted.toBytes = .ok encrypted ∧
        encrypted.decrypt gens key = .ok coin ∧ coin.isCommitted gens = true) ∧
      ∃ encrypted rest, ((plain { coin with value := 31 }).encrypt gens
          (key • gens.privateKey)).Gives tape encrypted rest ∧
        encrypted.decrypt gens key = .error .decryptionFailed := by
  intro gens coin key tape
  obtain ⟨hencrypt, hdecrypt⟩ := decrypt_encrypt gens
  have hinfo : coin.info.length ≤ Coin.maxInfoLength := Nat.zero_le _
  have hcommitted : coin.isCommitted gens = true := Coin.isCommitted_commit _
  have hspoiled : ¬ Coin.isCommitted gens { coin with value := 31 } = true := by decide +kernel
  obtain ⟨encrypted, rest, hrun, hcleared, -, hopen, hread⟩ := hencrypt (plain coin) key tape
  obtain ⟨encrypted', rest', hrun', -, -, hopen', -⟩ :=
    hencrypt (plain { coin with value := 31 }) key tape
  rw [plain, if_pos hcommitted] at hopen
  rw [plain, if_neg hspoiled] at hopen'
  refine ⟨hinfo, ⟨encrypted, rest, hrun, ?_, hread hinfo, hopen, ?_⟩, encrypted', rest', hrun',
    hopen'⟩
  · rw [hcleared]
  · exact (hdecrypt encrypted key coin hopen).1

end ConfidentialPayment.OutputCoin
