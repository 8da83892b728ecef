import Mathlib.Order.Bounds.Defs
import ConfidentialPayment.Machine.RangeProof
import ConfidentialPayment.Proofs.Machine.Decoding
import ConfidentialPayment.Proofs.Wire.Exactness

/-!
# ConfidentialPayment.Proofs.Machine.RangeProof

The length of a range proof is known before the proof is.

1. `pad_eq_ite`: a word has a padding up to `2 ^ 63`, and it is the least power of two that is not
   below the word or one (`isLeast_pad`).
2. `rangeProofLength_eq_ite`: the length is a word up to `2 ^ 57` values. The first step that can
   overflow is the length of the vectors, and with more values it does.
3. So the length that is asked for is the length of every proof that a prover or a decoder returns
   (`rangeProofLength_exact`).
-/

namespace ConfidentialPayment

/-- The padding is the least power of two that is not below a count, and not below one. -/
theorem isLeast_pad (n : ℕ) : IsLeast {q | (∃ k, q = 2 ^ k) ∧ max n 1 ≤ q} (pad n) := by
  refine ⟨⟨⟨_, rfl⟩, max_le (le_pad n) (pad_pos n)⟩, ?_⟩
  rintro q ⟨⟨k, rfl⟩, hle⟩
  exact pad_le_of_le ((le_max_left n 1).trans hle)

/-- A padding is below a power of two, other than one, exactly if the count is at most half of
it. -/
theorem pad_lt_two_pow_succ {n k : ℕ} : pad n < 2 ^ (k + 1) ↔ n ≤ 2 ^ k := by
  constructor
  · intro h
    have hlog : ceilLog2 n < k + 1 := (Nat.pow_lt_pow_iff_right (by decide)).mp h
    exact (le_pad n).trans (Nat.pow_le_pow_right (by decide) (Nat.le_of_lt_succ hlog))
  · intro h
    exact Nat.lt_of_le_of_lt (pad_le_of_le h)
      (Nat.pow_lt_pow_right (by decide) (Nat.lt_succ_self k))

/-- The length of an encoded range proof in units of the length of a point. -/
theorem RangeProof.byteLength_eq (count : ℕ) :
    byteLength count = 32 * (count + 2 * Nat.log2 (64 * pad count) + 10) + 2 := by
  have hlength : 64 * pad count = 2 ^ roundCount count := vectorLength_eq count
  rw [hlength, Nat.log2_two_pow]
  simp only [byteLength, pointLength, Scalar.byteLength]
  omega

namespace Machine

/-- A word above `2 ^ 63` has no padding. -/
theorem pad_eq_ite (n : ℕ) :
    pad n = if n ≤ 2 ^ 63 then .ok (ConfidentialPayment.pad n) else fault .overflow := by
  have hsize : ConfidentialPayment.pad n < UInt64.size ↔ n ≤ 2 ^ 63 := pad_lt_two_pow_succ (k := 63)
  unfold pad pad64?
  by_cases h : n ≤ 2 ^ 63
  · rw [if_pos (hsize.mpr h), if_pos h]
  · rw [if_neg (hsize.not.mpr h), if_neg h]

/-- The vectors for more than `2 ^ 57` values are longer than a word can say. -/
theorem mul_pad_of_lt {count : ℕ} (h : 2 ^ 57 < count) :
    (pad count >>= fun padded => mul RangeProof.bitCount padded) = fault .overflow := by
  rw [pad_eq_ite]
  -- Up to `2 ^ 63` the padding is a word and the product is none; beyond, there is no padding.
  by_cases hpad : count ≤ 2 ^ 63
  · have hlarge : 2 ^ 58 ≤ ConfidentialPayment.pad count :=
      Nat.le_of_not_lt (pad_lt_two_pow_succ.not.mpr (Nat.not_le_of_lt h))
    have hoverflow : ¬ RangeProof.bitCount * ConfidentialPayment.pad count < UInt64.size := by
      simp only [RangeProof.bitCount, UInt64.size]
      omega
    rw [if_pos hpad, ok_bind, mul, if_neg hoverflow]
  · rw [if_neg hpad]
    rfl

/-- The number of rounds is smaller than the number of bits of a word. -/
theorem roundCount_lt_wordBits {count : ℕ} (h : count ≤ 2 ^ 57) :
    RangeProof.roundCount count < wordBits := by
  have hlog : ceilLog2 count ≤ 57 :=
    (Nat.pow_le_pow_iff_right (a := 2) (by decide)).mp (pad_le_of_le h)
  exact Nat.lt_of_le_of_lt (Nat.add_le_add_left hlog 6) (by decide)

/-- Counting the zeros of the padded number of digits gives the number of rounds. -/
theorem rangeRounds_eq {count : ℕ} (h : count ≤ 2 ^ 57) :
    rangeRounds count = .ok (RangeProof.roundCount count) := by
  unfold rangeRounds
  rw [← bind_assoc, mul_pad h, ok_bind, trailingZeros_two_pow (roundCount_lt_wordBits h)]
  rfl

/-- As long as the number of digits is a word, the length of a proof is computed without a fault. -/
theorem rangeProofLength_eq {count : ℕ} (h : count ≤ 2 ^ 57) :
    rangeProofLength count = .ok (RangeProof.byteLength count) := by
  have hrounds : RangeProof.roundCount count < 64 := roundCount_lt_wordBits h
  have hsize : UInt64.size = 18446744073709551616 := rfl
  unfold rangeProofLength
  rw [rangeRounds_eq h, show pointLength = 32 from rfl, ok_bind, mul_eq (by omega), ok_bind,
    add_eq (by omega), ok_bind, add_eq (by omega), ok_bind, mul_eq (by omega), ok_bind,
    mul_eq (by omega), ok_bind, add_eq (by omega), ok_bind, add_eq (by omega)]
  refine congrArg Except.ok ?_
  simp only [RangeProof.byteLength, pointLength, Scalar.byteLength]
  omega

/-- The length of a range proof is a word exactly up to `2 ^ 57` values. -/
theorem rangeProofLength_eq_ite (count : ℕ) :
    rangeProofLength count = if count ≤ 2 ^ 57 then
      .ok (32 * (count + 2 * Nat.log2 (64 * ConfidentialPayment.pad count) + 10) + 2)
    else fault .overflow := by
  by_cases h : count ≤ 2 ^ 57
  · rw [if_pos h, rangeProofLength_eq h, RangeProof.byteLength_eq]
  · have hrounds : rangeRounds count = fault .overflow := by
      unfold rangeRounds
      rw [← bind_assoc, mul_pad_of_lt (Nat.lt_of_not_le h)]
      rfl
    rw [if_neg h, rangeProofLength, hrounds]
    rfl

/-- The formula without steps that can overflow has a result in the same cases. -/
theorem rangeProofLength_eq_byteLength64? (count : ℕ) :
    rangeProofLength count = match RangeProof.byteLength64? count with
      | some length => .ok length
      | none => fault .overflow := by
  have hvector : RangeProof.vectorLength count < UInt64.size ↔ count ≤ 2 ^ 57 := by
    have hpad := pad_lt_two_pow_succ (n := count) (k := 57)
    simp only [RangeProof.vectorLength, RangeProof.bitCount, UInt64.size]
    omega
  rw [rangeProofLength_eq_ite, ← RangeProof.byteLength_eq]
  unfold RangeProof.byteLength64?
  by_cases h : count ≤ 2 ^ 57
  · rw [if_pos h, if_pos (hvector.mpr h)]
  · rw [if_neg h, if_neg (hvector.not.mpr h)]

variable {P : Type} [Suite P]

/-- The length of a proof of the right shape is the one that is asked for. -/
theorem rangeProofLength_of_isWellFormed [LawfulEncoding P] {proof : RangeProof.Proof P}
    (h : proof.isWellFormed = true) :
    rangeProofLength proof.commitments.length = .ok proof.toBytes.length := by
  have hparts := h
  simp only [RangeProof.Proof.isWellFormed, Bool.and_eq_true, decide_eq_true_eq] at hparts
  rw [rangeProofLength_eq (hparts.1.1.2.trans (by decide)), RangeProof.length_toBytes h]

/-- The encoding of a proof begins with the number of values. -/
theorem exists_toBytes_eq_cons {proof : RangeProof.Proof P} (h : proof.isWellFormed = true) :
    ∃ first rest, proof.toBytes = first :: rest ∧ first.toNat = proof.commitments.length := by
  simp only [RangeProof.Proof.isWellFormed, Bool.and_eq_true, decide_eq_true_eq] at h
  have hcount : proof.commitments.length < 256 := Nat.lt_of_le_of_lt h.1.1.2 (by decide)
  exact ⟨UInt8.ofNat proof.commitments.length, proof.toBytes.tail, rfl,
    UInt8.toNat_ofNat_of_lt' hcount⟩

/-- The length of a range proof is known before the proof is. Every proof that a prover or a decoder
returns has the length that is asked for with its number of values, and a string that is read as a
proof has the length that is asked for with its first byte, the number of values. A word has a
padding up to `2 ^ 63`, the least power of two not below the word and one, and a length up to
`2 ^ 57`; with larger words the computation overflows. -/
theorem rangeProofLength_exact [LawfulEncoding P] :
    (∀ proof : RangeProof.Proof P, WireForm.range.Arises proof →
      rangeProofLength proof.commitments.length = .ok proof.toBytes.length) ∧
    (∀ (bs : Bytes) (proof : RangeProof.Proof P), RangeProof.Proof.ofBytes bs = .ok proof →
      ∃ first rest, bs = first :: rest ∧ first.toNat = proof.commitments.length ∧
        rangeProofLength first.toNat = .ok bs.length) ∧
    ∀ count : UInt64, ∃ q, IsLeast {q | (∃ k, q = 2 ^ k) ∧ max count.toNat 1 ≤ q} q ∧
      pad count.toNat = (if count.toNat ≤ 2 ^ 63 then .ok q else fault .overflow) ∧
      rangeProofLength count.toNat = if count.toNat ≤ 2 ^ 57 then
        .ok (32 * (count.toNat + 2 * Nat.log2 (64 * q) + 10) + 2) else fault .overflow := by
  refine ⟨fun proof h => ?_, fun bs proof h => ?_, fun count => ?_⟩
  · exact rangeProofLength_of_isWellFormed (WireForm.fits_of_arises .range rfl h)
  · obtain ⟨hshape, rfl⟩ := RangeProof.ofBytes_eq_ok_iff.mp h
    obtain ⟨first, rest, hbytes, hfirst⟩ := exists_toBytes_eq_cons hshape
    exact ⟨first, rest, hbytes, hfirst, hfirst ▸ rangeProofLength_of_isWellFormed hshape⟩
  · exact ⟨_, isLeast_pad _, pad_eq_ite _, rangeProofLength_eq_ite _⟩

/-- A proof about three values, and the words at the bound. -/
theorem rangeProofLength_exact_three :
    (∃ proof : RangeProof.Proof Logarithm, WireForm.range.Arises proof ∧
      proof.toBytes.length = 930 ∧ ∃ rest, proof.toBytes = 3 :: rest) ∧
    rangeProofLength (2 ^ 57) = .ok 4611686018427392258 ∧
    rangeProofLength (2 ^ 57 + 1) = fault .overflow := by
  let table := GeneratorTable.neutral Logarithm 256
  obtain ⟨w, hw⟩ : ∃ w, RangeProof.Witness.make [5, 18446744073709551615, 1] [1, 2, 3] = .ok w :=
    ⟨_, rfl⟩
  have hcount : w.values.length = 3 := by rw [(w.make_eq_ok hw).1]; rfl
  have hcapacity : w.vectorLength ≤ table.capacity := by
    rw [RangeProof.Witness.vectorLength, hcount]
    simp [table]
    decide
  obtain ⟨proof, rest, hrun, hcommitments, -⟩ :=
    w.prove_ensures .logarithms table hcapacity (.ofCycle [])
  have harises : WireForm.range.Arises proof :=
    .inl ⟨_, table, w, _, DrawExcept.outcome_eq_ok_iff.mpr ⟨rest, hrun⟩⟩
  have hthree : proof.commitments.length = 3 := by
    rw [hcommitments, w.length_valueCommitments, hcount]
  have hread : RangeProof.Proof.ofBytes proof.toBytes = .ok proof :=
    RangeProof.ofBytes_eq_ok_iff.mpr ⟨WireForm.fits_of_arises .range rfl harises, rfl⟩
  obtain ⟨hlength, hstring, hword⟩ := rangeProofLength_exact (P := Logarithm)
  obtain ⟨first, tail, hbytes, hfirst, -⟩ := hstring _ proof hread
  refine ⟨⟨proof, harises, ?_, tail, ?_⟩, ?_, ?_⟩
  · have h := hlength proof harises
    rw [hthree, rangeProofLength_eq (by decide)] at h
    exact (Except.ok.inj h).symm.trans (by decide)
  · rw [hbytes, UInt8.toNat_inj.mp (hfirst.trans hthree : first.toNat = (3 : UInt8).toNat)]
  · obtain ⟨q, hq, -, h⟩ := hword (2 ^ 57)
    obtain rfl : q = 2 ^ 57 := (hq.unique (isLeast_pad _)).trans (pad_two_pow 57)
    exact h
  · obtain ⟨q, -, -, h⟩ := hword (2 ^ 57 + 1)
    exact h

end Machine

end ConfidentialPayment
