import ConfidentialPayment.Proofs.Encryption.Symmetric
import ConfidentialPayment.Proofs.Suite.VectorSpace
import ConfidentialPayment.Proofs.Wire.Parts

/-!
# ConfidentialPayment.Proofs.Encryption.Hybrid

Encryption of byte strings to a public point.

`c.Encrypts gens publicKey message` says that `c` is a ciphertext of the message under some key
point, start of the counter and exponent. Whatever these are, the ciphertext is longer than the
message by a fixed number of bytes (`Encrypts.length_toBytes`), and the private key of the public
point gives the message back (`Encrypts.decrypt_eq`): the exponent cancels in ElGamal encryption, so
both sides hash the same key point.
-/

namespace ConfidentialPayment

variable {P : Type} [Suite P] {gens : Generators P}

/-- The masks of both sides are the product of the private key and the exponent. -/
theorem Elgamal.decrypt_encryptWith [LawfulGroup P] (gens : Generators P)
    (privateKey exponent : Scalar) (message : P) :
    decrypt privateKey (encryptWith gens (publicKey gens privateKey) message exponent) =
      message := by
  rw [decrypt, encryptWith, publicKey, smul_comm exponent privateKey]
  exact add_sub_cancel_right ..

namespace Hybrid

variable {publicKey : P} {message : Bytes}

/-- A ciphertext of a message, under whatever encryption draws. -/
def Ciphertext.Encrypts (gens : Generators P) (publicKey : P) (message : Bytes)
    (c : Ciphertext P) : Prop :=
  ∃ random : Randomness P, random.start.length = Symmetric.startLength ∧
    encryptWith gens publicKey message random = .ok c

/-- A ciphertext is the encrypted point, the start of the counter, and the message under the cipher
of the point. -/
theorem encryptWith_eq (h : message ≠ []) (random : Randomness P) :
    encryptWith gens publicKey message random =
      .ok ⟨some (Elgamal.encryptWith gens publicKey random.keyPoint random.exponent),
        random.start ++ Symmetric.applyKeystream (cipherOf random.keyPoint) random.start message⟩ :=
  bind_eq_ok.mpr ⟨_, Symmetric.encryptWith_eq h, rfl⟩

/-- The start of the counter is drawn in full. -/
theorem drawRandomness_ensures (h : message ≠ []) :
    (drawRandomness message : DrawExcept (Randomness P)).Ensures
      fun random => random.start.length = Symmetric.startLength := by
  unfold drawRandomness
  refine .lift_bind fun keyPoint => ?_
  rw [if_neg (by rwa [List.isEmpty_iff])]
  refine .bind (Q := fun start => start.length = Symmetric.startLength)
    (.lift fun tape => RandomSource.length_bytesAt ..) fun start hstart => ?_
  exact .lift_bind fun exponent => .pure hstart

variable {c : Ciphertext P}

/-- Encryption leaves no ciphertext without its key. -/
theorem hasKey_of_encryptWith {random : Randomness P}
    (h : encryptWith gens publicKey message random = .ok c) : c.HasKey := by
  unfold encryptWith at h
  obtain ⟨encryptedMessage, -, h⟩ := bind_eq_ok.mp h
  obtain rfl := pure_eq_ok.mp h
  exact nofun

/-- The ciphertext of a message contains the encrypted point. -/
theorem hasKey_of_encrypt {tape rest : RandomSource}
    (h : (encrypt gens publicKey message).Gives tape c rest) : c.HasKey := by
  obtain ⟨random, _, -, hencrypt⟩ := DrawExcept.gives_bind.mp h
  exact hasKey_of_encryptWith (DrawExcept.gives_ofExcept.mp hencrypt).1

namespace Ciphertext.Encrypts

/-- The parts of a ciphertext. -/
theorem parts (h : c.Encrypts gens publicKey message) (hmessage : message ≠ []) :
    ∃ random : Randomness P, random.start.length = Symmetric.startLength ∧
      c = ⟨some (Elgamal.encryptWith gens publicKey random.keyPoint random.exponent),
        random.start ++
          Symmetric.applyKeystream (cipherOf random.keyPoint) random.start message⟩ := by
  obtain ⟨random, hstart, hencrypt⟩ := h
  rw [encryptWith_eq hmessage] at hencrypt
  exact ⟨random, hstart, (Except.ok.inj hencrypt).symm⟩

theorem hasKey (h : c.Encrypts gens publicKey message) : c.HasKey := by
  obtain ⟨random, -, hencrypt⟩ := h
  exact hasKey_of_encryptWith hencrypt

/-- A ciphertext is as long as the encrypted key, the start of the counter and the message. -/
theorem length_toBytes [LawfulEncoding P] (h : c.Encrypts gens publicKey message)
    (hmessage : message ≠ []) : c.toBytes.length =
      Elgamal.Ciphertext.byteLength + (Symmetric.startLength + message.length) := by
  obtain ⟨random, hstart, rfl⟩ := h.parts hmessage
  rw [toBytes, Option.map_some, Option.getD_some, List.length_append, Elgamal.length_toBytes,
    List.length_append, hstart, Symmetric.length_applyKeystream]

/-- The owner of the private key decrypts what was encrypted to the public key. -/
theorem decrypt_eq [LawfulGroup P] {privateKey : Scalar}
    (h : c.Encrypts gens (privateKey • gens.privateKey) message) (hmessage : message ≠ []) :
    decrypt privateKey c = .ok message := by
  obtain ⟨random, hstart, rfl⟩ := h.parts hmessage
  have hbody : Symmetric.applyKeystream (cipherOf random.keyPoint) random.start message ≠ [] :=
    Symmetric.applyKeystream_ne_nil hmessage
  have hnonempty : ¬ (random.start ++ Symmetric.applyKeystream (cipherOf random.keyPoint)
      random.start message).isEmpty = true := by
    rw [List.isEmpty_iff]
    exact List.append_ne_nil_of_right_ne_nil _ hbody
  have hkey := Elgamal.decrypt_encryptWith gens privateKey random.exponent random.keyPoint
  rw [Elgamal.publicKey] at hkey
  rw [decrypt]
  dsimp only
  rw [if_neg hnonempty, hkey, Symmetric.decrypt_append hstart hbody,
    Symmetric.applyKeystream_applyKeystream]

end Ciphertext.Encrypts

end Hybrid

end ConfidentialPayment
