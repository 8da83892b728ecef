import Mathlib.FieldTheory.Finite.Basic
import ConfidentialPayment.Proofs.Scalar.Prime
import ConfidentialPayment.Scalar.Vector

/-!
# ConfidentialPayment.Proofs.Scalar.Field

The scalars are a field.

A scalar is the least representative of its residue class, so all laws come from the residue
classes modulo the order, which is prime. The instances below keep the operations that programs
run: `x ^ n` is `power x n` and `x⁻¹` is `inverse x`.
-/

namespace ConfidentialPayment.Scalar

/-- The residue class of a scalar. -/
def toZMod (x : Scalar) : ZMod order := x.val

/-- Scalars are determined by their residues. -/
theorem toZMod_injective : Function.Injective toZMod := by
  intro x y h
  rw [toZMod, toZMod, ZMod.natCast_eq_natCast_iff', Nat.mod_eq_of_lt x.val_lt,
    Nat.mod_eq_of_lt y.val_lt] at h
  exact ext h

/-- A number is reduced to its residue. -/
@[simp] theorem toZMod_ofNat (n : ℕ) : toZMod (ofNat n) = n := by
  simp [toZMod]

/-! ## Operations on representatives -/

theorem toZMod_zero : toZMod 0 = 0 := Nat.cast_zero

theorem toZMod_one : toZMod 1 = 1 := (toZMod_ofNat 1).trans Nat.cast_one

theorem toZMod_add (x y : Scalar) : toZMod (x + y) = toZMod x + toZMod y :=
  (toZMod_ofNat _).trans (Nat.cast_add _ _)

theorem toZMod_mul (x y : Scalar) : toZMod (x * y) = toZMod x * toZMod y :=
  (toZMod_ofNat _).trans (Nat.cast_mul _ _)

theorem toZMod_neg (x : Scalar) : toZMod (-x) = -toZMod x := by
  refine (toZMod_ofNat _).trans ?_
  rw [Nat.cast_sub x.val_lt.le, ZMod.natCast_self, zero_sub, toZMod]

theorem toZMod_sub (x y : Scalar) : toZMod (x - y) = toZMod x - toZMod y := by
  refine (toZMod_ofNat _).trans ?_
  rw [Nat.cast_add, Nat.cast_sub y.val_lt.le, ZMod.natCast_self, zero_sub, ← sub_eq_add_neg,
    toZMod, toZMod]

/-- Squaring and halving computes powers. -/
theorem toZMod_power (x : Scalar) (n : ℕ) : toZMod (power x n) = toZMod x ^ n := by
  induction x, n using power.induct with
  | case1 x => rw [power, if_pos rfl, toZMod_one, pow_zero]
  | case2 x n hn hodd ih =>
    rw [toZMod_mul, ← sq, ← pow_mul] at ih
    rw [power, if_neg hn]
    dsimp only
    rw [if_pos hodd, toZMod_mul, ih, ← pow_succ]
    congr 1
    omega
  | case3 x n hn heven ih =>
    rw [toZMod_mul, ← sq, ← pow_mul] at ih
    rw [power, if_neg hn]
    dsimp only
    rw [if_neg heven, ih]
    congr 1
    omega

/-! ## The field -/

instance : NatCast Scalar := ⟨ofNat⟩
instance : IntCast Scalar := ⟨fun n => ofNat (n % order).toNat⟩
instance : SMul ℕ Scalar := ⟨fun n x => ofNat n * x⟩
instance : SMul ℤ Scalar := ⟨fun n x => n * x⟩
instance : Pow Scalar ℕ := ⟨power⟩
instance : Inv Scalar := ⟨inverse⟩

theorem toZMod_intCast (n : ℤ) : toZMod n = n := by
  have hpos : 0 ≤ n % order := Int.emod_nonneg n (by exact_mod_cast order_pos.ne')
  refine (toZMod_ofNat _).trans ?_
  rw [← Int.cast_natCast, Int.toNat_of_nonneg hpos, ZMod.intCast_mod]

instance : CommRing Scalar :=
  toZMod_injective.commRing toZMod toZMod_zero toZMod_one toZMod_add toZMod_mul toZMod_neg
    toZMod_sub (fun n x => by rw [nsmul_eq_mul, ← toZMod_ofNat]; exact toZMod_mul _ _)
    (fun n x => by rw [zsmul_eq_mul, ← toZMod_intCast]; exact toZMod_mul _ _)
    toZMod_power toZMod_ofNat toZMod_intCast

theorem two_lt_order : 2 < order := by decide

theorem one_ne_zero' : (1 : Scalar) ≠ 0 := by decide

/-- The power with exponent `order - 2` is inverse to every scalar but zero. -/
theorem mul_inverse {x : Scalar} (hx : x ≠ 0) : x * x⁻¹ = 1 := by
  show x * inverse x = 1
  have hx' : toZMod x ≠ 0 := fun h => hx (toZMod_injective (h.trans toZMod_zero.symm))
  apply toZMod_injective
  rw [toZMod_mul, inverse, toZMod_power, ← pow_succ', toZMod_one]
  exact ZMod.pow_card_sub_one_eq_one hx'

theorem zero_inverse : (0 : Scalar)⁻¹ = 0 := by
  show inverse 0 = 0
  apply toZMod_injective
  rw [inverse, toZMod_power, toZMod_zero]
  exact zero_pow (Nat.sub_pos_of_lt two_lt_order).ne'

/-- A negative power is the inverse of a positive one. It is stated for any type because the kernel
unfolds the inverse of a scalar to a power before it compares the two sides. -/
theorem zpowRec_negSucc {G : Type} [One G] [Mul G] [Inv G] (n : ℕ) (a : G) :
    zpowRec npowRec (Int.negSucc n) a = (zpowRec npowRec (n.succ : ℤ) a)⁻¹ := rfl

instance : Field Scalar where
  exists_pair_ne := ⟨1, 0, one_ne_zero'⟩
  mul_inv_cancel _ := mul_inverse
  inv_zero := zero_inverse
  zpow := zpowRec npowRec
  zpow_neg' := zpowRec_negSucc
  nnqsmul := _
  nnqsmul_def := fun _ _ => rfl
  qsmul := _
  qsmul_def := fun _ _ => rfl

/-! ## Operations of programs as operations of the field -/

/-- An integer and its least representative have one class. -/
theorem intCast_emod (n : ℤ) : ((n % order : ℤ) : Scalar) = n :=
  congrArg (fun m : ℤ => ofNat m.toNat) (Int.emod_emod n order)

/-- Numbers are reduced as the field casts them. -/
@[simp] theorem ofNat_eq_natCast (n : ℕ) : ofNat n = (n : Scalar) := rfl

/-- The repeated product is the power of the field. -/
@[simp] theorem power_eq_pow (x : Scalar) (n : ℕ) : x.power n = x ^ n := rfl

/-- The inverse by a power is that of the field, with zero for zero. -/
@[simp] theorem inverse_eq_inv (x : Scalar) : x.inverse = x⁻¹ := rfl

/-! ## Numbers as scalars -/

/-- Numbers below the order are different scalars. -/
theorem natCast_inj {m n : ℕ} (hm : m < order) (hn : n < order) :
    (m : Scalar) = n ↔ m = n := by
  refine ⟨fun h => ?_, fun h => congrArg _ h⟩
  have hval : m % order = n % order := congrArg val h
  rwa [Nat.mod_eq_of_lt hm, Nat.mod_eq_of_lt hn] at hval

/-- There are more scalars than words. -/
theorem size_lt_order : UInt64.size < order := by decide

theorem ofUInt64_eq_natCast (n : UInt64) : ofUInt64 n = (n.toNat : Scalar) := rfl

/-- No word is reduced when it becomes a scalar. -/
theorem val_ofUInt64 (n : UInt64) : (ofUInt64 n).val = n.toNat :=
  Nat.mod_eq_of_lt (n.toNat_lt.trans size_lt_order)

/-- Different amounts are different scalars. -/
theorem ofUInt64_injective : Function.Injective ofUInt64 := by
  intro m n h
  have hm : m.toNat < order := m.toNat_lt.trans size_lt_order
  have hn : n.toNat < order := n.toNat_lt.trans size_lt_order
  exact UInt64.toNat_inj.mp ((natCast_inj hm hn).mp h)

/-- Amounts add up as scalars the way they do as numbers. -/
theorem sum_ofUInt64 {ι : Type} (is : List ι) (v : ι → UInt64) :
    (is.map fun i => ofUInt64 (v i)).sum = (((is.map fun i => (v i).toNat).sum : ℕ) : Scalar) := by
  rw [Nat.cast_list_sum, List.map_map]
  rfl

/-- A scalar is the cast of its value. -/
theorem natCast_val (x : Scalar) : (x.val : Scalar) = x := ext (Nat.mod_eq_of_lt x.val_lt)

/-- The representatives of scalars sum to a representative of their sum. -/
theorem natCast_sum_val {ι : Type} (is : List ι) (x : ι → Scalar) :
    (((is.map fun i => (x i).val).sum : ℕ) : Scalar) = (is.map x).sum := by
  rw [Nat.cast_list_sum, List.map_map]
  exact congrArg List.sum (List.map_congr_left fun i _ => natCast_val (x i))

@[simp] theorem ofUInt64_zero : ofUInt64 0 = 0 := rfl

/-- A bit is its own square. -/
@[simp] theorem ofBit_mul_self (b : Bool) : ofBit b * ofBit b = ofBit b := by
  cases b with
  | false => exact mul_zero 0
  | true => exact mul_one 1

/-- A scalar is a bit if its product with its complement vanishes. -/
theorem bit_of_mul_self {x : Scalar} (h : x * (1 - x) = 0) : ∃ b, x = ofBit b := by
  rcases mul_eq_zero.mp h with hzero | hone
  · exact ⟨false, hzero⟩
  · exact ⟨true, (sub_eq_zero.mp hone).symm⟩

end ConfidentialPayment.Scalar
