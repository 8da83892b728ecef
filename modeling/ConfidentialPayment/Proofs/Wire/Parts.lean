import ConfidentialPayment.Encryption.Hybrid
import ConfidentialPayment.Membership
import ConfidentialPayment.Proofs.Wire.Reader
import ConfidentialPayment.RangeProof.Encoding
import ConfidentialPayment.SerialNumber.Hidden
import ConfidentialPayment.SerialNumber.Revealed

/-!
# ConfidentialPayment.Proofs.Wire.Parts

The wire forms of proofs and ciphertexts.

Every part has one law: its decoder accepts a string exactly if the string is the encoding of the
result and the result has the shape that decoders ask for. Both directions of the round trip follow
from it.
-/

namespace ConfidentialPayment

open Reader

variable {P : Type} [Suite P] [LawfulEncoding P]

/-! ## Serial number proofs -/

namespace SerialNumber

/-- Every hidden proof has one string and is read from it. -/
theorem Hidden.recognizes_reader :
    Recognizes Proof.reader fun (proof : Proof P) bs => bs = proof.toBytes := by
  refine ((recognizes_point _).andThen fun _ => (recognizes_point _).andThen fun _ =>
    (recognizes_point _).andThen fun _ => (recognizes_scalar _).andThen fun _ =>
    (recognizes_scalar _).andThen fun _ => (recognizes_scalar _).andThen fun _ =>
    (recognizes_scalar _).andThen fun _ => recognizes_pure _).congr ?_
  rintro ⟨⟨key, derivator, serialNumber⟩, ⟨z₁, z₂, z₃, z₄⟩⟩ bs
  simp [Proof.toBytes, Writer.points, Writer.scalars]

theorem Hidden.length_toBytes (proof : Hidden.Proof P) :
    proof.toBytes.length = byteLength := by
  rw [Proof.toBytes, List.length_append, length_points, length_scalars]
  rfl

theorem Hidden.length_toBytes_lt (proof : Hidden.Proof P) : proof.toBytes.length < 65536 := by
  rw [length_toBytes]
  decide

/-- A string is read as a hidden proof exactly if it is the encoding of this proof. -/
theorem Hidden.ofBytes_eq_ok_iff {bs : Bytes} {proof : Hidden.Proof P} :
    Proof.ofBytes bs = .ok proof ↔ bs = proof.toBytes :=
  recognizes_reader.decodeFixed_eq_ok_iff fun proof _ h => h ▸ length_toBytes proof

/-- Every revealed proof has one string and is read from it. -/
theorem Revealed.recognizes_reader :
    Recognizes Proof.reader fun (proof : Proof P) bs => bs = proof.toBytes := by
  refine ((recognizes_point _).andThen fun _ => (recognizes_point _).andThen fun _ =>
    (recognizes_scalar _).andThen fun _ => recognizes_pure _).congr ?_
  rintro ⟨⟨key, serialNumber⟩, response⟩ bs
  simp [Proof.toBytes, Writer.points]

theorem Revealed.length_toBytes (proof : Revealed.Proof P) :
    proof.toBytes.length = byteLength := by
  rw [Proof.toBytes, List.length_append, length_points, Scalar.length_toBytes]
  rfl

theorem Revealed.length_toBytes_lt (proof : Revealed.Proof P) : proof.toBytes.length < 65536 := by
  rw [length_toBytes]
  decide

/-- A string is read as a revealed proof exactly if it is the encoding of this proof. -/
theorem Revealed.ofBytes_eq_ok_iff {bs : Bytes} {proof : Revealed.Proof P} :
    Proof.ofBytes bs = .ok proof ↔ bs = proof.toBytes :=
  recognizes_reader.decodeFixed_eq_ok_iff fun proof _ h => h ▸ length_toBytes proof

end SerialNumber

/-! ## Membership proofs -/

namespace Membership

/-- A proof of the right shape has one string and is read from it. -/
theorem recognizes_reader : Recognizes Proof.reader
    fun (proof : Proof P) bs => proof.isWellFormed = true ∧ bs = proof.toBytes := by
  refine ((recognizes_points _ _).andThen fun _ => (recognizes_points _ _).andThen fun _ =>
    (recognizes_points _ _).andThen fun _ => (recognizes_points _ _).andThen fun _ =>
    (recognizes_scalars _ _).andThen fun _ => (recognizes_scalars _ _).andThen fun _ =>
    (recognizes_scalars _ _).andThen fun _ => (recognizes_scalar _).andThen fun _ =>
    recognizes_pure _).congr ?_
  rintro ⟨⟨bits, masks, products, coefficients⟩, ⟨z₁, z₂, z₃, z₄⟩⟩ bs
  simp [Proof.toBytes, Proof.isWellFormed, and_assoc]

/-- All membership proofs of the right shape have one length. -/
theorem length_toBytes {proof : Proof P} (h : proof.isWellFormed = true) :
    proof.toBytes.length = byteLength := by
  simp only [Proof.isWellFormed, Bool.and_eq_true, decide_eq_true_eq] at h
  obtain ⟨⟨⟨⟨⟨⟨h₁, h₂⟩, h₃⟩, h₄⟩, h₅⟩, h₆⟩, h₇⟩ := h
  simp [Proof.toBytes, h₁, h₂, h₃, h₄, h₅, h₆, h₇, byteLength, digitCount, pointLength,
    Scalar.byteLength]

theorem length_toBytes_lt {proof : Proof P} (h : proof.isWellFormed = true) :
    proof.toBytes.length < 65536 := by
  rw [length_toBytes h]
  decide

/-- A string is read as a membership proof exactly if it is the encoding of this proof, whose shape
is right. -/
theorem ofBytes_eq_ok_iff {bs : Bytes} {proof : Proof P} :
    Proof.ofBytes bs = .ok proof ↔ proof.isWellFormed = true ∧ bs = proof.toBytes :=
  recognizes_reader.decodeFixed_eq_ok_iff fun _ _ h => h.2 ▸ length_toBytes h.1

end Membership

/-! ## Inner product arguments -/

namespace InnerProduct

/-- The number of rounds is a byte that is not too large. -/
theorem recognizes_readRoundCount :
    Recognizes readRoundCount fun n bs => n < maxRounds ∧ bs = Writer.nat8 n := by
  refine ((recognizes_nat8 _).andThen fun n =>
    (recognizes_pure n).ite (recognizes_fail _)).congr fun n bs => ?_
  have hfits : n < maxRounds → n < 256 := fun h => Nat.lt_trans h (by decide)
  simpa using fun h _ => hfits h

omit [Suite P] [LawfulEncoding P] in
/-- Rounds are made of as many left and right cross terms. -/
theorem eq_zipWith_mk_iff {rounds : List (Round P)} {lefts rights : List P} :
    rights.length = lefts.length ∧ rounds = List.zipWith Round.mk lefts rights ↔
      lefts = rounds.map Round.left ∧ rights = rounds.map Round.right := by
  constructor
  · rintro ⟨hlength, rfl⟩
    constructor <;> apply List.ext_getElem <;> simp [hlength]
  · rintro ⟨rfl, rfl⟩
    simp [List.zipWith_map_left, List.zipWith_map_right, List.zipWith_self]

/-- An argument with few rounds has one string and is read from it. -/
theorem recognizes_reader : Recognizes Proof.reader
    fun (proof : Proof P) bs => proof.isWellFormed = true ∧ bs = proof.toBytes := by
  refine (recognizes_readRoundCount.andThen fun _ => (recognizes_points _ _).andThen fun _ =>
    (recognizes_points _ _).andThen fun _ => (recognizes_scalar _).andThen fun _ =>
    (recognizes_scalar _).andThen fun _ => (recognizes_point _).andThen fun _ =>
    recognizes_pure _).congr ?_
  rintro ⟨rounds, a, b, commitment⟩ bs
  have hparts : (∃ lefts : List P, lefts.length < maxRounds ∧ ∃ rights : List P,
      rights.length = lefts.length ∧ rounds = List.zipWith Round.mk lefts rights ∧
        bs = Writer.nat8 lefts.length ++ (Writer.points lefts ++ (Writer.points rights ++
          (a.toBytes ++ (b.toBytes ++ Suite.encode commitment))))) ↔
      rounds.length < maxRounds ∧ bs = Proof.toBytes ⟨rounds, a, b, commitment⟩ := by
    constructor
    · rintro ⟨lefts, hcount, rights, hlength, hrounds, rfl⟩
      obtain ⟨rfl, rfl⟩ := eq_zipWith_mk_iff.mp ⟨hlength, hrounds⟩
      rw [List.length_map] at hcount ⊢
      exact ⟨hcount, by simp [Proof.toBytes]⟩
    · rintro ⟨hcount, rfl⟩
      obtain ⟨hlength, hrounds⟩ : (rounds.map Round.right).length = (rounds.map Round.left).length ∧
          rounds = _ := eq_zipWith_mk_iff.mpr ⟨rfl, rfl⟩
      exact ⟨_, by rwa [List.length_map], _, hlength, hrounds, by simp [Proof.toBytes]⟩
  simpa [Proof.isWellFormed, and_assoc] using hparts

/-- A string is read as an argument exactly if it is the encoding of this argument, which has few
rounds. -/
theorem ofBytes_eq_ok_iff {bs : Bytes} {proof : Proof P} :
    Proof.ofBytes bs = .ok proof ↔ proof.isWellFormed = true ∧ bs = proof.toBytes :=
  recognizes_reader.decode_eq_ok_iff

theorem length_toBytes (proof : Proof P) : proof.toBytes.length = proof.byteLength := by
  simp [Proof.toBytes, Proof.byteLength, Writer.nat8, LawfulEncoding.length_encode, pointLength,
    Scalar.byteLength]
  omega

end InnerProduct

/-! ## Range proofs -/

namespace RangeProof

/-- The number of values is a byte that is neither zero nor too large. -/
theorem recognizes_readCount :
    Recognizes readCount fun n bs => (0 < n ∧ n ≤ maxValues) ∧ bs = Writer.nat8 n := by
  refine ((recognizes_nat8 _).andThen fun n => (recognizes_fail _).ite
    ((recognizes_fail _).ite (recognizes_pure n))).congr fun n bs => ?_
  constructor
  · rintro ⟨count, _, back, ⟨-, rfl⟩, hcount, rfl⟩
    by_cases hzero : count = 0
    · exact ((if_pos hzero).mp hcount).elim
    · rw [if_neg hzero] at hcount
      by_cases hmany : count > maxValues
      · exact ((if_pos hmany).mp hcount).elim
      · rw [if_neg hmany] at hcount
        obtain ⟨rfl, rfl⟩ := hcount
        exact ⟨⟨Nat.pos_of_ne_zero hzero, Nat.le_of_not_lt hmany⟩, List.append_nil _⟩
  · rintro ⟨⟨hpos, hle⟩, rfl⟩
    have hfits : n < 256 := Nat.lt_of_le_of_lt hle (by decide)
    refine ⟨n, _, [], ⟨hfits, rfl⟩, ?_, (List.append_nil _).symm⟩
    rw [if_neg (Nat.ne_of_gt hpos), if_neg (Nat.not_lt.mpr hle)]
    exact ⟨rfl, rfl⟩

/-- A proof with some values, not too many, has one string and is read from it. -/
theorem recognizes_reader : Recognizes Proof.reader fun (proof : Proof P) bs =>
    (0 < proof.commitments.length ∧ proof.commitments.length ≤ maxValues ∧
      proof.argument.isWellFormed = true) ∧ bs = proof.toBytes := by
  refine (recognizes_readCount.andThen fun _ => (recognizes_points _ _).andThen fun _ =>
    (recognizes_point _).andThen fun _ => (recognizes_point _).andThen fun _ =>
    (recognizes_point _).andThen fun _ => (recognizes_point _).andThen fun _ =>
    (recognizes_scalar _).andThen fun _ => (recognizes_scalar _).andThen fun _ =>
    (recognizes_scalar _).andThen fun _ => InnerProduct.recognizes_reader.andThen fun _ =>
    recognizes_pure _).congr ?_
  rintro ⟨commitments, ⟨digits, masks⟩, ⟨linear, quadratic⟩, ⟨value, blinding, vectorBlinding⟩,
    argument⟩ bs
  simp [Proof.toBytes, Writer.points, Writer.scalars, and_assoc]

/-- A decoder accepts exactly the encodings of proofs that pass its check of the rounds. -/
theorem ofBytes_eq_ok_iff {bs : Bytes} {proof : Proof P} :
    Proof.ofBytes bs = .ok proof ↔ proof.isWellFormed = true ∧ bs = proof.toBytes := by
  unfold Proof.ofBytes
  rw [bind_eq_ok]
  simp only [recognizes_reader.decode_eq_ok_iff]
  constructor
  · rintro ⟨read, ⟨-, rfl⟩, hcheck⟩
    by_cases h : read.isWellFormed = true
    · rw [if_pos h] at hcheck
      obtain rfl := pure_eq_ok.mp hcheck
      exact ⟨h, rfl⟩
    · rw [if_neg h] at hcheck
      cases hcheck
  · rintro ⟨h, rfl⟩
    have hparts := h
    simp only [Proof.isWellFormed, Bool.and_eq_true, decide_eq_true_eq] at hparts
    obtain ⟨⟨⟨hpos, hle⟩, hargument⟩, -⟩ := hparts
    exact ⟨proof, ⟨⟨hpos, hle, hargument⟩, rfl⟩, by rw [if_pos h]; rfl⟩

/-- The number of values fixes the length. -/
theorem length_toBytes {proof : Proof P} (h : proof.isWellFormed = true) :
    proof.toBytes.length = byteLength proof.commitments.length := by
  simp only [Proof.isWellFormed, Bool.and_eq_true, decide_eq_true_eq] at h
  have hcount : (Writer.nat8 proof.commitments.length).length = 1 := Bytes.length_ofNatBE 1 _
  simp [Proof.toBytes, InnerProduct.length_toBytes, InnerProduct.Proof.byteLength, byteLength, h.2,
    hcount, pointLength, Scalar.byteLength]
  omega

theorem length_toBytes_lt {proof : Proof P} (h : proof.isWellFormed = true) :
    proof.toBytes.length < 65536 := by
  rw [length_toBytes h]
  simp only [Proof.isWellFormed, InnerProduct.Proof.isWellFormed, Bool.and_eq_true,
    decide_eq_true_eq] at h
  obtain ⟨⟨⟨-, hcount⟩, hrounds⟩, hlog⟩ := h
  rw [hlog] at hrounds
  simp only [maxValues, InnerProduct.maxRounds] at hcount hrounds
  simp only [byteLength, pointLength, Scalar.byteLength]
  omega

omit [LawfulEncoding P] in
/-- The encoding begins with the number of values, so it is not empty. -/
theorem toBytes_ne_nil (proof : Proof P) : proof.toBytes ≠ [] := by
  have hcount : (Writer.nat8 proof.commitments.length).length = 1 := Bytes.length_ofNatBE 1 _
  rw [Proof.toBytes]
  refine List.ne_nil_of_length_pos ?_
  simp only [List.length_append, hcount]
  omega

end RangeProof

/-! ## Ciphertexts -/

theorem Elgamal.length_toBytes (c : Elgamal.Ciphertext P) :
    c.toBytes.length = Ciphertext.byteLength := by
  rw [Ciphertext.toBytes, List.length_append, LawfulEncoding.length_encode,
    LawfulEncoding.length_encode]
  rfl

/-- A string is read as an encrypted point exactly if it is the encoding of this point. -/
theorem Elgamal.ofBytes_eq_ok_iff {bs : Bytes} {c : Elgamal.Ciphertext P} :
    Ciphertext.ofBytes bs = .ok c ↔ bs = c.toBytes := by
  unfold Ciphertext.ofBytes
  constructor
  · intro h
    split at h
    · simp only [bind_eq_ok, mapError_eq_ok, readPoint_eq_ok_iff, pure_eq_ok] at h
      obtain ⟨first, hfirst, second, hsecond, rfl⟩ := h
      rw [Ciphertext.toBytes, ← hfirst, ← hsecond, List.take_append_drop]
    · cases h
  · rintro rfl
    have hlength := LawfulEncoding.length_encode c.exponentCommitment
    rw [if_pos (length_toBytes c), Ciphertext.toBytes, Bytes.take_append_of_length hlength,
      Bytes.drop_append_of_length hlength]
    simp only [bind_eq_ok, mapError_eq_ok, readPoint_eq_ok_iff, pure_eq_ok]
    exact ⟨_, rfl, _, rfl, rfl⟩

namespace Hybrid

/-- A message is encrypted under a key, so without the key there is none. -/
def Ciphertext.HasKey (c : Ciphertext P) : Prop := c.encryptedKey = none → c.encryptedMessage = []

/-- An encrypted key is read back from before its message. -/
theorem ofBytes_key_append (key : Elgamal.Ciphertext P) (message : Bytes) :
    Ciphertext.ofBytes (key.toBytes ++ message) = .ok ⟨some key, message⟩ := by
  have hlength := Elgamal.length_toBytes key
  have hlong : ¬ (key.toBytes ++ message).length < Elgamal.Ciphertext.byteLength := by
    rw [List.length_append, hlength]
    omega
  have hnonempty : ¬ (key.toBytes ++ message).isEmpty = true := by
    intro h
    rw [List.isEmpty_iff.mp h] at hlong
    exact hlong (by decide)
  unfold Ciphertext.ofBytes
  dsimp only
  rw [if_neg hnonempty, if_neg hlong, Bytes.take_append_of_length hlength,
    Bytes.drop_append_of_length hlength]
  simp only [bind_eq_ok, mapError_eq_ok, Elgamal.ofBytes_eq_ok_iff, pure_eq_ok]
  exact ⟨_, rfl, rfl⟩

/-- A string is read as a ciphertext exactly if it is the encoding of a ciphertext with a key. -/
theorem ofBytes_eq_ok_iff {bs : Bytes} {c : Ciphertext P} :
    Ciphertext.ofBytes bs = .ok c ↔ c.HasKey ∧ bs = c.toBytes := by
  constructor
  · intro h
    unfold Ciphertext.ofBytes at h
    dsimp only at h
    split at h
    · next hempty =>
      cases h
      exact ⟨fun _ => rfl, List.isEmpty_iff.mp hempty⟩
    · split at h
      · cases h
      · simp only [bind_eq_ok, mapError_eq_ok, Elgamal.ofBytes_eq_ok_iff, pure_eq_ok] at h
        obtain ⟨key, hkey, rfl⟩ := h
        refine ⟨nofun, ?_⟩
        rw [Ciphertext.toBytes, Option.map_some, Option.getD_some, ← hkey, List.take_append_drop]
  · rintro ⟨hkey, rfl⟩
    obtain ⟨key, message⟩ := c
    cases key with
    | none =>
      obtain rfl : message = [] := hkey rfl
      rfl
    | some key => exact ofBytes_key_append key message

end Hybrid

end ConfidentialPayment
