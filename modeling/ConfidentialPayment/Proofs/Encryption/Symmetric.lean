import ConfidentialPayment.Encryption.Symmetric
import ConfidentialPayment.Proofs.Cipher.CounterMode
import ConfidentialPayment.Proofs.RandomSource
import ConfidentialPayment.Proofs.Runs

/-!
# ConfidentialPayment.Proofs.Encryption.Symmetric

Symmetric encryption, for any block cipher.

A ciphertext is the start of the counter and then the message under the key stream, so it can be
taken apart at a fixed place, and applying the key stream again gives the message
(`decrypt_append`). `encrypt_is_counter_mode` says the rest: which bytes the key stream has, and
which strings are no ciphertexts.
-/

namespace ConfidentialPayment.Symmetric

variable {cipher : Cipher.Block → Cipher.Block} {start message : Bytes}

@[simp] theorem length_applyKeystream (cipher : Cipher.Block → Cipher.Block)
    (start message : Bytes) : (applyKeystream cipher start message).length = message.length :=
  Cipher.length_counterMode ..

/-- Applying the keystream twice undoes it. -/
@[simp] theorem applyKeystream_applyKeystream (cipher : Cipher.Block → Cipher.Block)
    (start message : Bytes) :
    applyKeystream cipher start (applyKeystream cipher start message) = message :=
  Cipher.counterMode_counterMode ..

theorem applyKeystream_ne_nil (h : message ≠ []) : applyKeystream cipher start message ≠ [] := by
  rw [← List.length_pos_iff, length_applyKeystream]
  exact List.length_pos_iff.mpr h

/-- A ciphertext is the start of the counter and the message under the keystream. -/
theorem encryptWith_eq (h : message ≠ []) :
    encryptWith cipher start message = .ok (start ++ applyKeystream cipher start message) := by
  rw [encryptWith, if_neg (by rwa [List.isEmpty_iff])]

/-- A start of the counter and something behind it are the ciphertext of some message. -/
theorem decrypt_append {body : Bytes} (hstart : start.length = startLength) (hbody : body ≠ []) :
    decrypt cipher (start ++ body) = .ok (applyKeystream cipher start body) := by
  have hpos := List.length_pos_iff.mpr hbody
  have hlength : ¬ (start ++ body).length ≤ startLength := by
    rw [List.length_append]
    omega
  have hempty : ¬ (start ++ body).isEmpty = true := by
    rw [List.isEmpty_iff]
    exact List.append_ne_nil_of_right_ne_nil start hbody
  rw [decrypt, if_neg hempty, if_neg hlength, Bytes.take_append_of_length hstart,
    Bytes.drop_append_of_length hstart]

/-- Only the start of the counter is drawn. -/
theorem gives_encrypt {tape rest : RandomSource} (h : message ≠ [])
    (hdraw : (RandomSource.take startLength).run tape = (start, rest)) :
    (encrypt cipher message).Gives tape (start ++ applyKeystream cipher start message) rest := by
  unfold encrypt
  rw [if_neg (by rwa [List.isEmpty_iff])]
  exact DrawExcept.gives_bind.mpr ⟨start, rest, DrawExcept.gives_lift.mpr hdraw,
    DrawExcept.gives_ofExcept.mpr ⟨encryptWith_eq h, rfl⟩⟩

/-- The start of the counter alone is too short, and so is a part of it. -/
theorem decrypt_of_length_le {ciphertext : Bytes} (hpos : 1 ≤ ciphertext.length)
    (hshort : ciphertext.length ≤ startLength) :
    decrypt cipher ciphertext = .error (.ciphertextTooShort ciphertext.length) := by
  have hne : ¬ ciphertext.isEmpty = true := by
    rw [List.isEmpty_iff, ← List.length_eq_zero_iff]
    omega
  rw [decrypt, if_neg hne, if_pos hshort]

/-- All longer strings are ciphertexts: decrypting and encrypting are inverse to each other. -/
theorem encryptWith_of_decrypt {ciphertext : Bytes} (hlong : startLength < ciphertext.length) :
    ∃ message, message ≠ [] ∧ decrypt cipher ciphertext = .ok message ∧
      encryptWith cipher (ciphertext.take startLength) message = .ok ciphertext := by
  have hstart : (ciphertext.take startLength).length = startLength :=
    List.length_take_of_le (Nat.le_of_lt hlong)
  have hbody : ciphertext.drop startLength ≠ [] := by
    rw [← List.length_pos_iff, List.length_drop]
    omega
  have hmessage : applyKeystream cipher (ciphertext.take startLength)
      (ciphertext.drop startLength) ≠ [] := applyKeystream_ne_nil hbody
  have hsplit : ciphertext.take startLength ++ ciphertext.drop startLength = ciphertext :=
    List.take_append_drop ..
  refine ⟨_, hmessage, ?_, ?_⟩
  · rw [← decrypt_append hstart hbody, hsplit]
  · rw [encryptWith_eq hmessage, applyKeystream_applyKeystream, hsplit]

/-- A ciphertext is the drawn start of the counter and then the message, whose byte `16 * i + j` is
added to byte `j` of the enciphered number `start + i`, modulo `2 ^ 128`; it decrypts to the
message. Strings of up to 16 bytes are no ciphertexts, and all longer ones are ciphertexts of what
they decrypt to. -/
theorem encrypt_is_counter_mode (cipher : Cipher.Block → Cipher.Block) :
    (∀ (tape : RandomSource) (message : Bytes), message ≠ [] →
      ∃ start body rest, (RandomSource.take startLength).run tape = (start, rest) ∧
        (encrypt cipher message).Gives tape (start ++ body) rest ∧
        encryptWith cipher start message = .ok (start ++ body) ∧
        start.length = 16 ∧ body.length = message.length ∧
        (∀ (i : ℕ) (j : Fin 16), body[16 * i + j.val]? = message[16 * i + j.val]?.map
          (· ^^^ (cipher (Cipher.counterBlock ((Bytes.toNatBE start + i) % 2 ^ 128))).get j)) ∧
        decrypt cipher (start ++ body) = .ok message) ∧
      decrypt cipher [] = .error .emptyInput ∧
      (∀ ciphertext : Bytes, 1 ≤ ciphertext.length → ciphertext.length ≤ 16 →
        decrypt cipher ciphertext = .error (.ciphertextTooShort ciphertext.length)) ∧
      ∀ ciphertext : Bytes, 16 < ciphertext.length → ∃ message, message ≠ [] ∧
        decrypt cipher ciphertext = .ok message ∧
        encryptWith cipher (ciphertext.take 16) message = .ok ciphertext := by
  refine ⟨fun tape message hmessage => ?_, rfl, fun _ => decrypt_of_length_le,
    fun _ => encryptWith_of_decrypt⟩
  obtain ⟨start, rest, hdraw⟩ :
      ∃ start rest, (RandomSource.take startLength).run tape = (start, rest) := ⟨_, _, rfl⟩
  have hstart : start.length = startLength := by
    rw [← (Prod.mk.inj hdraw).1]
    exact RandomSource.length_bytesAt ..
  refine ⟨start, _, rest, hdraw, gives_encrypt hmessage hdraw, encryptWith_eq hmessage, hstart,
    length_applyKeystream .., fun i j => ?_, ?_⟩
  · rw [applyKeystream, Cipher.getElem?_counterMode, Cipher.keystreamByte_block]
  · rw [decrypt_append hstart (applyKeystream_ne_nil hmessage), applyKeystream_applyKeystream]

/-- A message of one block and a part of the next, with a counter that goes from its last number on
to zero; the longest string that is no ciphertext, and a ciphertext of a single byte. -/
theorem encrypt_is_counter_mode_wrapping :
    let cipher := Cipher.aes256 (List.replicate 32 7)
    let message : Bytes := List.replicate 20 1
    let start : Bytes := List.replicate 16 255
    message ≠ [] ∧
      (∃ body rest, (encrypt cipher message).Gives (.ofCycle [255]) (start ++ body) rest ∧
        body.length = 20 ∧
        body[15]? = some (1 ^^^ (cipher (Cipher.counterBlock (2 ^ 128 - 1))).get 15) ∧
        body[16]? = some (1 ^^^ (cipher (Cipher.counterBlock 0)).get 0) ∧
        decrypt cipher (start ++ body) = .ok message) ∧
      decrypt cipher start = .error (.ciphertextTooShort 16) ∧
      ∃ message', decrypt cipher (start ++ [9]) = .ok message' ∧
        encryptWith cipher start message' = .ok (start ++ [9]) := by
  intro cipher message start
  obtain ⟨hencrypt, -, hshort, hlong⟩ := encrypt_is_counter_mode cipher
  have hmessage : message ≠ [] := by decide
  refine ⟨hmessage, ?_, hshort start (by decide) (by decide), ?_⟩
  · obtain ⟨start', body, rest, hdraw, hrun, -, -, hlength, hbytes, hdecrypt⟩ :=
      hencrypt (.ofCycle [255]) message hmessage
    obtain rfl : start = start' := by
      rw [← (Prod.mk.inj hdraw).1]
      rfl
    have hwrapped : (Bytes.toNatBE start + 1) % 2 ^ 128 = 0 := by decide
    have hlast : (Bytes.toNatBE start + 0) % 2 ^ 128 = 2 ^ 128 - 1 := by decide
    have hfirst := hbytes 0 15
    have hsecond := hbytes 1 0
    rw [hlast] at hfirst
    rw [hwrapped] at hsecond
    exact ⟨body, rest, hrun, hlength, hfirst, hsecond, hdecrypt⟩
  · obtain ⟨message', -, hdecrypt, hinverse⟩ := hlong (start ++ [9]) (by decide)
    exact ⟨message', hdecrypt, hinverse⟩

end ConfidentialPayment.Symmetric
