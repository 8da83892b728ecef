import Mathlib.Data.Nat.Log
import ConfidentialPayment.Machine

/-!
# ConfidentialPayment.Proofs.Machine.Arithmetic

Operations of the machine that do not fault.

Each lemma says under which bound a step has a result, and which. Together with the steps that come
from results and refusals (`ofExcept_ne_fault`) they are all that is known about the machine
elsewhere.
-/

namespace ConfidentialPayment.Machine

variable {α : Type}

/-! ## Results and refusals -/

@[simp] theorem ofExcept_ok (a : α) : ofExcept (.ok a) = .ok a := rfl

@[simp] theorem ofExcept_error (cause : Error) :
    ofExcept (.error cause : Except Error α) = refuse cause := rfl

@[simp] theorem ok_bind {β : Type} (a : α) (f : α → Machine β) :
    (Except.ok a : Machine α) >>= f = f a := rfl

@[simp] theorem refuse_bind {β : Type} (cause : Error) (f : α → Machine β) :
    (refuse cause : Machine α) >>= f = refuse cause := rfl

/-- A sequence of pure programs is the sequence of what they are on the machine. -/
theorem ofExcept_bind {β : Type} (x : Except Error α) (f : α → Except Error β) :
    ofExcept (x >>= f) = ofExcept x >>= fun a => ofExcept (f a) := by
  cases x with
  | error cause => rfl
  | ok a => rfl

/-- Naming the field of a failure is the same on the machine. -/
theorem within_ofExcept (field : String) (x : Except Error α) :
    within field (ofExcept x) = ofExcept (x.mapError (.malformed field)) := by
  cases x with
  | error cause => rfl
  | ok a => rfl

/-- What comes from a result or a refusal is no fault. -/
theorem ofExcept_ne_fault (x : Except Error α) (f : Fault) : ofExcept x ≠ fault f := by
  cases x with
  | error cause => simp [refuse, fault]
  | ok a => simp [fault]

/-! ## Words -/

theorem add_eq {a b : ℕ} (h : a + b < UInt64.size) : add a b = .ok (a + b) := if_pos h

theorem sub_eq {a b : ℕ} (h : b ≤ a) : sub a b = .ok (a - b) := if_pos h

theorem mul_eq {a b : ℕ} (h : a * b < UInt64.size) : mul a b = .ok (a * b) := if_pos h

/-- A one that is not shifted out of the word is a power of two. -/
theorem shiftLeft_one {count : ℕ} (h : count < wordBits) : shiftLeft 1 count = .ok (2 ^ count) := by
  have hlt : 2 ^ count < UInt64.size := Nat.pow_lt_pow_right (by decide) h
  rw [shiftLeft, if_pos h, Nat.one_shiftLeft, Nat.mod_eq_of_lt hlt]

/-- The machine pads as the integers do if the result is a word. -/
theorem pad_eq {n : ℕ} (h : ConfidentialPayment.pad n < UInt64.size) :
    pad n = .ok (ConfidentialPayment.pad n) := by
  rw [pad, pad64?, if_pos h]

/-- A power of two has as many trailing zeros as its exponent says. -/
theorem trailingZeros_two_pow {k : ℕ} (h : k < wordBits) : trailingZeros wordBits (2 ^ k) = k := by
  have hbits (i : ℕ) : (BitVec.ofNat wordBits (2 ^ k)).getLsbD i =
      (decide (i < wordBits) && decide (k = i)) := by
    rw [BitVec.getLsbD_ofNat, Nat.testBit_two_pow]
  have hne : BitVec.ofNat wordBits (2 ^ k) ≠ BitVec.ofNat wordBits 0 := by
    intro hzero
    have hbit := hbits k
    rw [hzero, decide_eq_true h, decide_eq_true rfl, BitVec.getLsbD_zero] at hbit
    cases hbit
  have hset := BitVec.getLsbD_true_ctz_of_ne_zero hne
  rw [hbits, Bool.and_eq_true, decide_eq_true_iff, decide_eq_true_iff] at hset
  exact hset.2.symm

/-- The leading zeros stand above the leading digit. -/
theorem leadingZeros_add_log2 {width n : ℕ} (hpos : n ≠ 0) (hn : n < 2 ^ width) :
    leadingZeros width n + n.log2 + 1 = width := by
  have hvalue : (BitVec.ofNat width n).toNat = n := by
    rw [BitVec.toNat_ofNat, Nat.mod_eq_of_lt hn]
  have hne : BitVec.ofNat width n ≠ BitVec.ofNat width 0 := by
    intro hzero
    rw [hzero, BitVec.toNat_zero] at hvalue
    exact hpos hvalue.symm
  have hzeros : leadingZeros width n < width := by
    have hlt := BitVec.lt_def.mp (BitVec.clz_lt_iff_ne_zero.mpr hne)
    rwa [BitVec.natCast_eq_ofNat, BitVec.toNat_ofNat, Nat.mod_two_pow_self] at hlt
  have hlower := BitVec.two_pow_sub_clz_le_toNat_of_ne_zero (Nat.zero_lt_of_lt hzeros) hne
  have hupper := BitVec.toNat_lt_two_pow_sub_clz (x := BitVec.ofNat width n)
  rw [hvalue] at hlower hupper
  change 2 ^ (width - 1 - leadingZeros width n) ≤ n at hlower
  change n < 2 ^ (width - leadingZeros width n) at hupper
  have hlog : n.log2 = width - 1 - leadingZeros width n := by
    refine (Nat.log2_eq_iff hpos).mpr ⟨hlower, ?_⟩
    rwa [show width - 1 - leadingZeros width n + 1 = width - leadingZeros width n by omega]
  omega

/-! ## Lists -/

/-- An index within the bounds does not fault. -/
theorem get_eq {as : List α} {i : ℕ} {a : α} (h : as[i]? = some a) : get as i = .ok a := by
  rw [get, h]

/-- A range within the bounds does not fault. -/
theorem slice_eq {as : List α} {start stop : ℕ} (hstart : start ≤ stop)
    (hstop : stop ≤ as.length) : slice as start stop = .ok ((as.take stop).drop start) :=
  if_pos ⟨hstart, hstop⟩

/-- A slice up to the end. -/
theorem slice_length_eq {as : List α} {start : ℕ} (h : start ≤ as.length) :
    slice as start as.length = .ok (as.drop start) := by
  rw [slice_eq h (Nat.le_refl _), List.take_length]

/-- A slice from the beginning. -/
theorem slice_zero_eq {as : List α} {stop : ℕ} (h : stop ≤ as.length) :
    slice as 0 stop = .ok (as.take stop) := slice_eq (Nat.zero_le stop) h

end ConfidentialPayment.Machine
