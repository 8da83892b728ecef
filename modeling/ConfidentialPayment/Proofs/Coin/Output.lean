import ConfidentialPayment.Proofs.Coin.Encoding
import ConfidentialPayment.Proofs.Encryption.Hybrid

/-!
# ConfidentialPayment.Proofs.Coin.Output

Outputs before and after they are encrypted.

1. An output that a payment creates pays its payee (`Coin.Pays`). It has an info of at most 255
   bytes and no ciphertext (`OutputCoin.IsPlain`).
2. `output.IsEncryptedAs gens transmissionKey encrypted` says what encrypting makes of it: the coin
   loses its blinding and its value, and the ciphertext encrypts them. This is all that a run of
   encryption leaves behind (`OutputCoin.encrypt_ensures`).
3. Details have a fixed length, so ciphertexts have one too. Either way an output can be written.
-/

namespace ConfidentialPayment

/-- An info that can be set is not too long. -/
theorem Coin.length_info_of_withInfo {P : Type} {coin coin' : Coin P} {info : Bytes}
    (h : coin.withInfo info = .ok coin') : coin'.info.length ≤ maxInfoLength := by
  unfold withInfo at h
  split_ifs at h with hlong
  cases h
  exact Nat.le_of_not_gt hlong

/-- A coin is what a payee is to get: it is the payee's, and it has the amount and the message. -/
structure Coin.Pays {P : Type} (coin : Coin P) (payee : Payee P) : Prop where
  publicKey : coin.publicKey = payee.publicKey
  value : coin.value = payee.amount
  info : coin.info = payee.message

namespace OutputCoin

variable {P : Type} [Suite P] {gens : Generators P}

/-- An output before it is encrypted. -/
structure IsPlain (output : OutputCoin P) : Prop where
  info : output.coin.info.length ≤ Coin.maxInfoLength
  ciphertext : output.ciphertext = .empty

/-- The output for a payee is not encrypted yet, and its info is short. -/
theorem isPlain_of_forPayee {payee : Payee P} {output : OutputCoin P} {tape rest : RandomSource}
    (h : (forPayee payee).Gives tape output rest) : output.IsPlain := by
  unfold forPayee at h
  simp only [DrawExcept.gives_bind, DrawExcept.gives_map, DrawExcept.gives_ofExcept] at h
  obtain ⟨derivator, _, -, coin, ⟨hcoin, -⟩, rfl⟩ := h
  exact ⟨Coin.length_info_of_withInfo hcoin, rfl⟩

/-- The output for a payee carries the amount, the info and the address that were asked for. -/
theorem pays_of_forPayee {payee : Payee P} {output : OutputCoin P} {tape rest : RandomSource}
    (h : (forPayee payee).Gives tape output rest) : output.coin.Pays payee := by
  unfold forPayee at h
  simp only [DrawExcept.gives_bind, DrawExcept.gives_map, DrawExcept.gives_ofExcept] at h
  obtain ⟨derivator, _, -, coin, ⟨hcoin, -⟩, rfl⟩ := h
  unfold coinFor Coin.withInfo at hcoin
  split_ifs at hcoin
  cases hcoin
  exact ⟨rfl, rfl, rfl⟩

/-! ## Encrypted outputs -/

omit [Suite P] in
/-- The details of a coin have one length, whatever the coin. -/
@[simp] theorem length_details (coin : Coin P) : (details coin).length = detailsLength := by
  rw [details, List.length_append, Scalar.length_toBytes, Coin.length_uint64]
  rfl

omit [Suite P] in
/-- There are details to encrypt. -/
theorem details_ne_nil (coin : Coin P) : details coin ≠ [] := by
  rw [← List.length_pos_iff, length_details]
  decide

/-- What encrypting makes of an output, under whatever it draws. -/
structure IsEncryptedAs (gens : Generators P) (transmissionKey : P)
    (output encrypted : OutputCoin P) : Prop where
  coin : encrypted.coin = { output.coin with blinding := 0, value := 0 }
  ciphertext : encrypted.ciphertext.Encrypts gens transmissionKey (details output.coin)

/-- Encrypting an output succeeds. -/
theorem encrypt_ensures (output : OutputCoin P) (transmissionKey : P) :
    (output.encrypt gens transmissionKey).Ensures (output.IsEncryptedAs gens transmissionKey) := by
  have hdetails := details_ne_nil output.coin
  refine (Hybrid.drawRandomness_ensures hdetails).bind fun random hstart => ?_
  have hencrypt : Hybrid.encryptWith gens transmissionKey (details output.coin) random = _ :=
    Hybrid.encryptWith_eq hdetails random
  exact .ofExcept (bind_eq_ok.mpr ⟨_, hencrypt, rfl⟩) ⟨rfl, random, hstart, hencrypt⟩

variable [LawfulEncoding P] {output encrypted : OutputCoin P} {transmissionKey : P}

/-- An encrypted key, the start of the counter and the details. -/
theorem IsEncryptedAs.length_ciphertext (h : output.IsEncryptedAs gens transmissionKey encrypted) :
    encrypted.ciphertext.toBytes.length = 120 := by
  rw [h.ciphertext.length_toBytes (details_ne_nil _), length_details]
  rfl

/-! ## Writing outputs -/

/-- Behind a short ciphertext every coin fits into an item with a length of two bytes. -/
theorem length_toBytes_lt (hinfo : output.coin.info.length ≤ Coin.maxInfoLength)
    (hciphertext : output.ciphertext.toBytes.length ≤ 120) :
    output.toBytes.length < 65536 := by
  have hcoin := Coin.length_spell_le {} output.coin
  have hlength : (Writer.nat16 output.ciphertext.toBytes.length).length = 2 :=
    Bytes.length_ofNatBE 2 _
  rw [Coin.spell_default] at hcoin
  simp only [toBytes, List.length_append, hlength]
  simp only [pointLength, Scalar.byteLength, Coin.valueLength, Coin.maxInfoLength] at *
  omega

/-- An output without a ciphertext can be written, in few bytes. -/
theorem IsPlain.isWritable (h : output.IsPlain) :
    output.IsWritable ∧ output.toBytes.length < 65536 := by
  have hciphertext : output.ciphertext.toBytes.length = 0 := by rw [h.ciphertext]; rfl
  refine ⟨⟨h.info, ?_, by omega⟩, length_toBytes_lt h.info (by omega)⟩
  rw [h.ciphertext]
  exact fun _ => rfl

/-- An encrypted output can be written, in few bytes. -/
theorem IsEncryptedAs.isWritable (h : output.IsEncryptedAs gens transmissionKey encrypted)
    (hinfo : output.coin.info.length ≤ Coin.maxInfoLength) :
    encrypted.IsWritable ∧ encrypted.toBytes.length < 65536 := by
  have hkept : encrypted.coin.info = output.coin.info := by rw [h.coin]
  have hlength := h.length_ciphertext
  rw [← hkept] at hinfo
  exact ⟨⟨hinfo, h.ciphertext.hasKey, by omega⟩,
    length_toBytes_lt hinfo (by omega)⟩

end OutputCoin

end ConfidentialPayment
