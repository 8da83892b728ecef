import Mathlib.Algebra.Group.Nat.Defs
import Mathlib.Data.List.Basic
import ConfidentialPayment.Encryption.Symmetric
import ConfidentialPayment.Proofs.Lists

/-!
# ConfidentialPayment.Proofs.Cipher.CounterMode

Counter mode byte by byte.

The program cuts a message into pieces of a block and counts the pieces. Here byte `i` of the key
stream is byte `i % 16` of the enciphered number `start + i / 16`, and the whole message is added to
the key stream at once, however long its last piece is (`counterMode_eq_mapIdx`). That adding it
twice gives the message back, and that nothing gets lost, is then said of single bytes.
-/

namespace ConfidentialPayment.Cipher

/-- A byte of the key stream that starts at a number. -/
def keystreamByte (cipher : Block → Block) (start i : ℕ) : UInt8 :=
  (cipher (counterBlock (start + i / blockLength))).get (Fin.ofNat 16 i)

/-- Numbers count modulo `2 ^ 128`. -/
theorem counterBlock_mod (n : ℕ) : counterBlock (n % 2 ^ 128) = counterBlock n := by
  have hbytes := Bytes.ofNatBE_toNatBE (Bytes.ofNatBE blockLength n)
  rw [Bytes.length_ofNatBE, Bytes.toNatBE_ofNatBE] at hbytes
  simp only [counterBlock, ← hbytes]
  rfl

/-- Block `i` of the key stream is the enciphered number `start + i`. -/
theorem keystreamByte_block (cipher : Block → Block) (start i : ℕ) (j : Fin 16) :
    keystreamByte cipher start (16 * i + j.val) =
      (cipher (counterBlock ((start + i) % 2 ^ 128))).get j := by
  have hcounter : (16 * i + j.val) / blockLength = i := by
    rw [blockLength]
    omega
  have hplace : Fin.ofNat 16 (16 * i + j) = j := Fin.ext (by simp [Fin.ofNat])
  rw [keystreamByte, hcounter, hplace, counterBlock_mod]

/-- The key stream from its second block on starts at the next number. -/
theorem keystreamByte_add (cipher : Block → Block) (start i : ℕ) :
    keystreamByte cipher start (i + blockLength) = keystreamByte cipher (start + 1) i := by
  have hcounter : start + (i + blockLength) / blockLength = start + 1 + i / blockLength := by
    rw [Nat.add_div_right i (by decide)]
    omega
  have hplace : Fin.ofNat 16 (i + blockLength) = Fin.ofNat 16 i :=
    Fin.ext (Nat.add_mod_right i blockLength)
  rw [keystreamByte, keystreamByte, hcounter, hplace]

/-- One piece is added to the first block. -/
theorem xor_toList {cipher : Block → Block} {counter : ℕ} {piece : Bytes}
    (h : piece.length ≤ blockLength) :
    Bytes.xor piece (cipher (counterBlock counter)).toList =
      piece.mapIdx fun i b => b ^^^ keystreamByte cipher counter i := by
  have hlength : (Bytes.xor piece (cipher (counterBlock counter)).toList).length =
      piece.length := by
    rw [Bytes.xor, List.length_zipWith, Vector.length_toList]
    exact Nat.min_eq_left h
  refine List.ext_getElem (hlength.trans List.length_mapIdx.symm) fun i hi _ => ?_
  have hlt : i < blockLength := Nat.lt_of_lt_of_le (hlength ▸ hi) h
  have hplace : Fin.ofNat 16 i = ⟨i, hlt⟩ := Fin.ext (Nat.mod_eq_of_lt hlt)
  simp only [Bytes.xor, List.getElem_zipWith, List.getElem_mapIdx, keystreamByte, hplace,
    Nat.div_eq_of_lt hlt, Nat.add_zero]
  rfl

/-- Counter mode adds to each byte the keystream byte of its place, and nothing else. -/
theorem counterMode_eq_mapIdx (cipher : Block → Block) (start : ℕ) (message : Bytes) :
    counterMode cipher start message =
      message.mapIdx fun i b => b ^^^ keystreamByte cipher start i := by
  unfold counterMode
  induction message using Bytes.chunks.induct blockLength generalizing start with
  | case1 => rw [Bytes.chunks, counterModePieces, List.mapIdx_nil]
  | case2 b bs ih =>
    have hpiece : (b :: bs.take (blockLength - 1)).length ≤ blockLength := by
      rw [List.length_cons, List.length_take]
      exact Nat.succ_le_succ (Nat.min_le_left _ _)
    rw [Bytes.chunks, counterModePieces, ih, xor_toList hpiece]
    conv_rhs => rw [← List.take_append_drop (blockLength - 1) bs, ← List.cons_append,
      List.mapIdx_append]
    congr 1
    -- Either the piece is a whole block, or it is the last one and nothing comes behind it.
    by_cases hlast : bs.length ≤ blockLength - 1
    · rw [List.drop_of_length_le hlast, List.mapIdx_nil, List.mapIdx_nil]
    · have hfull : (b :: bs.take (blockLength - 1)).length = blockLength := by
        rw [List.length_cons, List.length_take_of_le (Nat.le_of_not_le hlast)]
        rfl
      simp only [hfull, keystreamByte_add]

@[simp] theorem length_counterMode (cipher : Block → Block) (start : ℕ) (message : Bytes) :
    (counterMode cipher start message).length = message.length := by
  rw [counterMode_eq_mapIdx, List.length_mapIdx]

/-- A byte of the ciphertext depends on no byte of the message but the one at its place. -/
theorem getElem?_counterMode (cipher : Block → Block) (start : ℕ) (message : Bytes) (i : ℕ) :
    (counterMode cipher start message)[i]? =
      message[i]?.map (· ^^^ keystreamByte cipher start i) := by
  rw [counterMode_eq_mapIdx, List.getElem?_mapIdx]

/-- Deciphering is enciphering again. -/
@[simp] theorem counterMode_counterMode (cipher : Block → Block) (start : ℕ) (message : Bytes) :
    counterMode cipher start (counterMode cipher start message) = message := by
  refine List.ext_getElem? fun i => ?_
  rw [getElem?_counterMode, getElem?_counterMode, Option.map_map]
  cases message[i]? with
  | none => rfl
  | some b =>
    simp only [Option.map_some, Function.comp_apply, UInt8.xor_assoc, UInt8.xor_self,
      UInt8.xor_zero]

end ConfidentialPayment.Cipher
