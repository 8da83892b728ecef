/-!
# ConfidentialPayment.PowerOfTwo

Rounding counts up to powers of two.

`ceilLog2 n` is the least exponent whose power is not below `n`, and `pad n` is that power. The
main statements are `le_pad` and `pad_le_of_le`: among the powers of two that are not below `n`,
`pad n` is the least. A power of two is its own padding (`pad_two_pow`), so padding twice is
padding once.
-/

namespace ConfidentialPayment

-- In this namespace powers of natural numbers are the ones of the core library, with the monoid
-- powers of the proofs' imports as without them.
attribute [scoped instance (high)] instPowNat

/-- The least `k` with `n ≤ 2 ^ k`. -/
def ceilLog2 (n : Nat) : Nat := if n ≤ 1 then 0 else (n - 1).log2 + 1

/-- The least power of two that is not below `n`; one for `n = 0`. -/
def pad (n : Nat) : Nat := 2 ^ ceilLog2 n

/-- A count is not above its padding. -/
theorem le_pad (n : Nat) : n ≤ pad n := by
  unfold pad ceilLog2
  split
  · omega
  · next h =>
    have hlt : n - 1 < 2 ^ ((n - 1).log2 + 1) := Nat.lt_log2_self
    omega

/-- A power of two that is not below a count is not below its padding. -/
theorem pad_le_of_le {n k : Nat} (h : n ≤ 2 ^ k) : pad n ≤ 2 ^ k := by
  unfold pad ceilLog2
  split
  · exact Nat.pow_le_pow_right (by decide) (Nat.zero_le k)
  · next hn =>
    have hlog : (n - 1).log2 < k := (Nat.log2_lt (by omega)).mpr (by omega)
    exact Nat.pow_le_pow_right (by decide) hlog

theorem pad_pos (n : Nat) : 0 < pad n := Nat.two_pow_pos _

/-- A power of two needs no padding. -/
@[simp] theorem pad_two_pow (k : Nat) : pad (2 ^ k) = 2 ^ k :=
  Nat.le_antisymm (pad_le_of_le (Nat.le_refl _)) (le_pad _)

@[simp] theorem ceilLog2_two_pow (k : Nat) : ceilLog2 (2 ^ k) = k :=
  (Nat.pow_right_inj (by decide)).mp (pad_two_pow k)

/-- What is padded once stays as it is. -/
@[simp] theorem pad_pad (n : Nat) : pad (pad n) = pad n := pad_two_pow _

/-- A number is a power of two if rounding up leaves it as it is. -/
def isPowerOfTwo (n : Nat) : Bool := pad n = n

theorem isPowerOfTwo_two_pow (k : Nat) : isPowerOfTwo (2 ^ k) = true := by
  simp [isPowerOfTwo]

/-- The padding of a 64-bit count, if it is a 64-bit number itself. -/
def pad64? (n : Nat) : Option Nat := if pad n < UInt64.size then some (pad n) else none

end ConfidentialPayment
