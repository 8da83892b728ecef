import ConfidentialPayment.PowerOfTwo

/-!
# ConfidentialPayment.Bytes

Byte strings and the numbers they spell.

1. A byte string is a `List UInt8`.
2. `ofNatLE w n` and `ofNatBE w n` write `n` in exactly `w` bytes, dropping what does not fit;
   `toNatLE` and `toNatBE` read a string of any length back.
3. `chunks k` cuts a string into pieces of `k` bytes, the last one possibly shorter.

The main statements are the read-back laws `toNatLE_ofNatLE` and `toNatBE_ofNatBE` and their
converses `ofNatLE_toNatLE` and `ofNatBE_toNatBE`, which make every fixed-width number field of
the wire formats a bijection with the numbers that fit.
-/

namespace ConfidentialPayment

/-- A byte string. -/
abbrev Bytes := List UInt8

namespace Bytes

/-! ## take/drop over appended strings -/

/-- Taking the length of the first part of an append gives that part. -/
theorem take_append_of_length {xs ys : List α} (h : xs.length = k) : (xs ++ ys).take k = xs := by
  subst h; simp

/-- Dropping the length of the first part of an append gives the rest. -/
theorem drop_append_of_length {xs ys : List α} (h : xs.length = k) : (xs ++ ys).drop k = ys := by
  subst h; simp

/-! ## Little-endian numbers -/

/-- The `width` low bytes of `n`, least significant first. -/
def ofNatLE : (width n : Nat) → Bytes
  | 0, _ => []
  | width + 1, n => UInt8.ofNat n :: ofNatLE width (n / 256)

/-- The number a byte string spells, least significant byte first. -/
def toNatLE : Bytes → Nat
  | [] => 0
  | b :: bs => b.toNat + 256 * toNatLE bs

@[simp] theorem length_ofNatLE (width n : Nat) : (ofNatLE width n).length = width := by
  induction width generalizing n with
  | zero => rfl
  | succ width ih => simp [ofNatLE, ih]

/-- Reading back gives the number modulo the range of the width. -/
theorem toNatLE_ofNatLE (width n : Nat) : toNatLE (ofNatLE width n) = n % 256 ^ width := by
  induction width generalizing n with
  | zero => simp [ofNatLE, toNatLE, Nat.mod_one]
  | succ width ih =>
    rw [ofNatLE, toNatLE, ih, UInt8.toNat_ofNat', show (2 : Nat) ^ 8 = 256 from rfl,
      Nat.pow_succ', Nat.mod_mul]

/-- A number that fits its width reads back unchanged. -/
theorem toNatLE_ofNatLE_of_lt {width n : Nat} (h : n < 256 ^ width) :
    toNatLE (ofNatLE width n) = n := by
  rw [toNatLE_ofNatLE, Nat.mod_eq_of_lt h]

/-- A string of `k` bytes spells a number below `256 ^ k`. -/
theorem toNatLE_lt (bs : Bytes) : toNatLE bs < 256 ^ bs.length := by
  induction bs with
  | nil => simp [toNatLE]
  | cons b bs ih =>
    have hb : b.toNat < 256 := b.toNat_lt
    simp only [toNatLE, List.length_cons, Nat.pow_succ']
    omega

/-- What follows in a string counts in units of what the string before it can spell. -/
theorem toNatLE_append (as bs : Bytes) :
    toNatLE (as ++ bs) = toNatLE as + 256 ^ as.length * toNatLE bs := by
  induction as with
  | nil => simp [toNatLE]
  | cons a as ih =>
    rw [List.cons_append, toNatLE, toNatLE, ih, List.length_cons, Nat.pow_succ', Nat.mul_add,
      Nat.mul_assoc, Nat.add_assoc]

/-- Zero bytes alone are the number zero. -/
theorem toNatLE_replicate_zero (n : Nat) : toNatLE (List.replicate n 0) = 0 := by
  induction n with
  | zero => rfl
  | succ n ih => rw [List.replicate_succ, toNatLE, ih]; rfl

/-- Writing what a string spells in its own width gives the string again. -/
theorem ofNatLE_toNatLE (bs : Bytes) : ofNatLE bs.length (toNatLE bs) = bs := by
  induction bs with
  | nil => rfl
  | cons b bs ih =>
    have hb : b.toNat < 256 := b.toNat_lt
    have hdiv : (b.toNat + 256 * toNatLE bs) / 256 = toNatLE bs := by omega
    have hmod : UInt8.ofNat (b.toNat + 256 * toNatLE bs) = b := by
      apply UInt8.toNat_inj.mp
      rw [UInt8.toNat_ofNat']
      omega
    simp only [List.length_cons, ofNatLE, toNatLE, hdiv, hmod, ih]

/-! ## Big-endian numbers -/

/-- The `width` low bytes of `n`, most significant first. -/
def ofNatBE (width n : Nat) : Bytes := (ofNatLE width n).reverse

/-- The number a byte string spells, most significant byte first. -/
def toNatBE (bs : Bytes) : Nat := toNatLE bs.reverse

@[simp] theorem length_ofNatBE (width n : Nat) : (ofNatBE width n).length = width := by
  simp [ofNatBE]

/-- Reading back gives the number modulo the range of the width. -/
theorem toNatBE_ofNatBE (width n : Nat) : toNatBE (ofNatBE width n) = n % 256 ^ width := by
  simp [toNatBE, ofNatBE, toNatLE_ofNatLE]

/-- A number that fits its width reads back unchanged. -/
theorem toNatBE_ofNatBE_of_lt {width n : Nat} (h : n < 256 ^ width) :
    toNatBE (ofNatBE width n) = n := by
  rw [toNatBE_ofNatBE, Nat.mod_eq_of_lt h]

/-- A string of `k` bytes spells a number below `256 ^ k`. -/
theorem toNatBE_lt (bs : Bytes) : toNatBE bs < 256 ^ bs.length := by
  simpa [toNatBE] using toNatLE_lt bs.reverse

/-- Writing what a string spells in its own width gives the string again. -/
theorem ofNatBE_toNatBE (bs : Bytes) : ofNatBE bs.length (toNatBE bs) = bs := by
  have h := ofNatLE_toNatLE bs.reverse
  rw [List.length_reverse] at h
  rw [ofNatBE, toNatBE, h, List.reverse_reverse]

/-! ## Pieces and combinations -/

/-- `chunks k xs` cuts `xs` into pieces of `k` entries; the last piece may be shorter, and `k = 0`
counts as one. -/
def chunks {α : Type} (k : Nat) : List α → List (List α)
  | [] => []
  | x :: xs => (x :: xs.take (k - 1)) :: chunks k (xs.drop (k - 1))
termination_by xs => xs.length
decreasing_by
  simp only [List.length_drop, List.length_cons]
  omega

/-- Byte-wise exclusive or, as long as the shorter string. -/
def xor (a b : Bytes) : Bytes := List.zipWith (· ^^^ ·) a b

/-- The bytes of a text in UTF-8. -/
def ofText (text : String) : Bytes := text.toUTF8.data.toList

/-- The lexicographic order of byte strings; a string comes after each of its beginnings. -/
def compare : Bytes → Bytes → Ordering
  | [], [] => .eq
  | [], _ :: _ => .lt
  | _ :: _, [] => .gt
  | a :: as, b :: bs => if a < b then .lt else if b < a then .gt else compare as bs

end Bytes

end ConfidentialPayment
