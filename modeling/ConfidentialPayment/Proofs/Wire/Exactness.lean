import ConfidentialPayment.Proofs.Encryption.Hybrid
import ConfidentialPayment.Proofs.InnerProduct.Completeness
import ConfidentialPayment.Proofs.Membership.Completeness
import ConfidentialPayment.Proofs.RangeProof.Completeness
import ConfidentialPayment.Proofs.Signature
import ConfidentialPayment.Proofs.Wire.Totality
import ConfidentialPayment.Ristretto

/-!
# ConfidentialPayment.Proofs.Wire.Exactness

Proofs, signatures and ciphertexts have one spelling each.

1. `decode_eq_ok_iff`: a decoder accepts a string exactly if it is the encoding of the result and
   the result has the shape that the format asks for (`WireForm.Fits`).
2. What a prover, a signer or an encryptor returns has this shape (`fits_of_isMade`), and so does
   what a decoder returns (`fits_of_arises`).
3. So encoding and decoding are inverse to each other (`codecs_are_inverse`). Coins, and what
   contains them, are left out: a blank field of a coin may be written in two ways.
-/

namespace ConfidentialPayment.WireForm

variable {P : Type} [Suite P]

/-- Whether nothing has two strings in the format. -/
def hasOneSpelling : WireForm → Bool
  | coin | output | payment => false
  | _ => true

/-- The encoder of a format. -/
def encode : (form : WireForm) → form.Content P → Bytes
  | membership => Membership.Proof.toBytes
  | hiddenSerial => SerialNumber.Hidden.Proof.toBytes
  | revealedSerial => SerialNumber.Revealed.Proof.toBytes
  | argument => InnerProduct.Proof.toBytes
  | range => RangeProof.Proof.toBytes
  | signature => Signature.toBytes
  | elgamal => Elgamal.Ciphertext.toBytes
  | hybrid => Hybrid.Ciphertext.toBytes
  | coin => Coin.toBytes
  | output => OutputCoin.toBytes
  | payment => Payment.Proof.toBytes

/-! ## Shapes -/

/-- The shape that a format asks for. -/
def Fits : (form : WireForm) → form.Content P → Prop
  | membership => fun proof => Membership.Proof.isWellFormed proof = true
  | argument => fun proof => InnerProduct.Proof.isWellFormed proof = true
  | range => fun proof => RangeProof.Proof.isWellFormed proof = true
  | hybrid => Hybrid.Ciphertext.HasKey
  | _ => fun _ => True

/-- A string is accepted exactly if it is the encoding of the result, which has the right shape. -/
theorem decode_eq_ok_iff [LawfulEncoding P] (form : WireForm) (hform : form.hasOneSpelling = true)
    {bs : Bytes} {a : form.Content P} :
    form.decode bs = .ok a ↔ form.Fits a ∧ bs = form.encode a := by
  cases form with
  | membership => exact Membership.ofBytes_eq_ok_iff
  | hiddenSerial =>
    exact SerialNumber.Hidden.ofBytes_eq_ok_iff.trans (iff_of_eq (true_and _)).symm
  | revealedSerial =>
    exact SerialNumber.Revealed.ofBytes_eq_ok_iff.trans (iff_of_eq (true_and _)).symm
  | argument => exact InnerProduct.ofBytes_eq_ok_iff
  | range => exact RangeProof.ofBytes_eq_ok_iff
  | signature => exact Signature.ofBytes_eq_ok_iff.trans (iff_of_eq (true_and _)).symm
  | elgamal => exact Elgamal.ofBytes_eq_ok_iff.trans (iff_of_eq (true_and _)).symm
  | hybrid => exact Hybrid.ofBytes_eq_ok_iff
  | coin | output | payment => cases hform

/-! ## Provers, signers and encryptors -/

/-- What the programs of the library return in a format, on some tape: the provers for any witness,
the argument for vectors of a length that a decoder allows, the signer, and the encryptors with the
ciphertext that stands for none. -/
def IsMade : (form : WireForm) → form.Content P → Prop
  | membership => fun proof => ∃ (gens : Generators P) (w : Membership.Witness P)
      (tape : RandomSource), ((w.prove gens).run tape).1 = proof
  | hiddenSerial => fun proof => ∃ (gens : Generators P) (s : SerialNumber.Hidden.Statement P)
      (w : SerialNumber.Hidden.Witness) (tape : RandomSource),
        ((SerialNumber.Hidden.prove gens s w).run tape).1 = proof
  | revealedSerial => fun proof => ∃ (gens : Generators P)
      (s : SerialNumber.Revealed.Statement P) (key : Scalar) (tape : RandomSource),
        ((SerialNumber.Revealed.prove gens s key).run tape).1 = proof
  | argument => fun proof => ∃ (t t' : Transcript) (u : P) (v : InnerProduct.Vectors P) (k : ℕ),
      k < 32 ∧ v.g.length = 2 ^ k ∧ InnerProduct.Proof.create t u v = .ok (proof, t')
  | range => fun proof => ∃ (gens : Generators P) (table : GeneratorTable P)
      (w : RangeProof.Witness) (tape : RandomSource),
        (w.prove gens table).outcome tape = .ok proof
  | signature => fun s => ∃ (gens : Generators P) (key : SigningKey) (message : Digest)
      (tape : RandomSource), ((Signature.sign gens key message).run tape).1 = s
  | elgamal => fun c => ∃ (gens : Generators P) (publicKey message : P) (tape : RandomSource),
      ((Elgamal.encrypt gens publicKey message).run tape).1 = c
  | hybrid => fun c => c = .empty ∨ ∃ (gens : Generators P) (publicKey : P) (message : Bytes)
      (tape : RandomSource), (Hybrid.encrypt gens publicKey message).outcome tape = .ok c
  | coin | output | payment => fun _ => False

/-- What a prover, a signer or an encryptor returns has the shape that its format asks for. -/
theorem fits_of_isMade (form : WireForm) {a : form.Content P} (h : form.IsMade a) :
    form.Fits a := by
  cases form with
  | membership =>
    obtain ⟨gens, w, tape, rfl⟩ := h
    exact w.isWellFormed_prove gens tape
  | argument =>
    obtain ⟨t, t', u, v, k, hk, hlength, hcreate⟩ := h
    have hrounds := InnerProduct.length_rounds_of_create hlength hcreate
    exact decide_eq_true (hrounds.trans_lt hk)
  | range =>
    obtain ⟨gens, table, w, tape, hrun⟩ := h
    obtain ⟨rest, hrun⟩ := DrawExcept.outcome_eq_ok_iff.mp hrun
    exact RangeProof.Witness.isWellFormed_of_prove hrun
  | hybrid =>
    rcases h with rfl | ⟨gens, publicKey, message, tape, hrun⟩
    · exact fun _ => rfl
    · obtain ⟨rest, hrun⟩ := DrawExcept.outcome_eq_ok_iff.mp hrun
      exact Hybrid.hasKey_of_encrypt hrun
  | hiddenSerial | revealedSerial | signature | elgamal | coin | output | payment => trivial

/-- What a program of the library or a decoder returns in a format. -/
def Arises (form : WireForm) (a : form.Content P) : Prop :=
  form.IsMade a ∨ ∃ bs, form.decode bs = .ok a

/-- What is returned or accepted has the shape that its format asks for. -/
theorem fits_of_arises [LawfulEncoding P] (form : WireForm) (hform : form.hasOneSpelling = true)
    {a : form.Content P} (h : form.Arises a) : form.Fits a := by
  rcases h with hmade | ⟨bs, hread⟩
  · exact form.fits_of_isMade hmade
  · exact ((form.decode_eq_ok_iff hform).mp hread).1

/-! ## Encoding and decoding -/

/-- What a program of the library or a decoder returns is read back from its encoding. -/
theorem decode_encode_of_arises [LawfulEncoding P] (form : WireForm)
    (hform : form.hasOneSpelling = true) {a : form.Content P} (h : form.Arises a) :
    form.decode (form.encode a) = .ok a :=
  (form.decode_eq_ok_iff hform).mpr ⟨form.fits_of_arises hform h, rfl⟩

/-- The number of values fixes the number of rounds. -/
theorem length_rounds_of_decode [LawfulEncoding P] {bs : Bytes} {proof : RangeProof.Proof P}
    (h : RangeProof.Proof.ofBytes bs = .ok proof) :
    1 ≤ proof.commitments.length ∧ proof.commitments.length ≤ 32 ∧
      proof.argument.rounds.length = Nat.log2 (64 * pad proof.commitments.length) := by
  have hshape := (RangeProof.ofBytes_eq_ok_iff.mp h).1
  simp only [RangeProof.Proof.isWellFormed, Bool.and_eq_true, decide_eq_true_eq] at hshape
  obtain ⟨⟨⟨hpos, hle⟩, -⟩, hrounds⟩ := hshape
  have hlength : 64 * pad proof.commitments.length = _ := RangeProof.vectorLength_eq _
  rw [hlength, Nat.log2_two_pow]
  exact ⟨hpos, hle, hrounds⟩

/-- Encoding and decoding are inverse to each other. What is read from a string is written as this
string again, and what a program of the library returns is read back from what it is written as. A
range proof that is read has one round for each factor two of the padded number of digits. -/
theorem codecs_are_inverse [LawfulEncoding P] (form : WireForm)
    (hform : form.hasOneSpelling = true) :
    (∀ (bs : Bytes) (a : form.Content P), form.decode bs = .ok a → form.encode a = bs) ∧
    (∀ a : form.Content P, form.Arises a → form.decode (form.encode a) = .ok a) ∧
    (∀ (bs : Bytes) (proof : RangeProof.Proof P), RangeProof.Proof.ofBytes bs = .ok proof →
      1 ≤ proof.commitments.length ∧ proof.commitments.length ≤ 32 ∧
        proof.argument.rounds.length = Nat.log2 (64 * pad proof.commitments.length)) := by
  refine ⟨fun bs a h => ?_, fun a h => ?_, fun bs proof => length_rounds_of_decode⟩
  · exact ((form.decode_eq_ok_iff hform).mp h).2.symm
  · exact form.decode_encode_of_arises hform h

/-- A proof about three values in the group that programs use. -/
theorem codecs_are_inverse_three :
    ∃ proof : RangeProof.Proof Ristretto.Point, range.IsMade proof ∧
      range.decode (range.encode proof) = .ok proof ∧
      proof.argument.rounds.length = Nat.log2 (64 * pad proof.commitments.length) := by
  let table := GeneratorTable.neutral Ristretto.Point 256
  obtain ⟨w, hw⟩ : ∃ w, RangeProof.Witness.make [5, 18446744073709551615, 1] [1, 2, 3] = .ok w :=
    ⟨_, rfl⟩
  have hcapacity : w.vectorLength ≤ table.capacity := by
    rw [RangeProof.Witness.vectorLength, (w.make_eq_ok hw).1]
    simp [table]
    decide
  obtain ⟨proof, rest, hrun, -⟩ :=
    w.prove_ensures_isWellFormed (.standard Ristretto.Point) table hcapacity (.ofCycle [])
  have hmade : range.IsMade proof :=
    ⟨_, table, w, _, DrawExcept.outcome_eq_ok_iff.mpr ⟨rest, hrun⟩⟩
  obtain ⟨-, hinverse, hrounds⟩ := codecs_are_inverse (P := Ristretto.Point) range rfl
  have hread := hinverse proof (.inl hmade)
  exact ⟨proof, hmade, hread, (hrounds _ proof hread).2.2⟩

end ConfidentialPayment.WireForm
