import ConfidentialPayment.Bytes
import ConfidentialPayment.Error

/-!
# ConfidentialPayment.Scalar

The scalar field: integers modulo the prime `Scalar.order`, the order of the group that points
live in.

1. A scalar is a number below the order, so two scalars are equal exactly when their numbers are.
2. `toBytes` writes 32 bytes, little endian; `ofBytes` reads back exactly those strings and
   refuses every other one.
3. `ofWideBytes` reduces a longer string, which is how hashes and random bytes become scalars.
-/

namespace ConfidentialPayment

/-- The order of the group, `2 ^ 252 + 27742317777372353535851937790883648493`. -/
def Scalar.order : Nat := 2 ^ (252 : Nat) + 27742317777372353535851937790883648493

theorem Scalar.order_pos : 0 < Scalar.order := by decide

/-- An integer modulo the group order, held as its least representative. -/
structure Scalar where
  val : Nat
  val_lt : val < Scalar.order
deriving DecidableEq

namespace Scalar

@[ext] theorem ext {a b : Scalar} (h : a.val = b.val) : a = b := by
  cases a; cases b; subst h; rfl

/-! ## Arithmetic -/

/-- The class of a number. -/
def ofNat (n : Nat) : Scalar := ⟨n % order, Nat.mod_lt n order_pos⟩

@[simp] theorem val_ofNat (n : Nat) : (ofNat n).val = n % order := rfl

instance : Zero Scalar := ⟨⟨0, order_pos⟩⟩
instance : One Scalar := ⟨ofNat 1⟩
instance : Inhabited Scalar := ⟨0⟩
instance : Add Scalar := ⟨fun a b => ofNat (a.val + b.val)⟩
instance : Mul Scalar := ⟨fun a b => ofNat (a.val * b.val)⟩
instance : Neg Scalar := ⟨fun a => ofNat (order - a.val)⟩
instance : Sub Scalar := ⟨fun a b => ofNat (a.val + (order - b.val))⟩

/-- `x` to the power `n` by repeated squaring, with `x ^ 0 = 1` also for `x = 0`. -/
def power (x : Scalar) (n : Nat) : Scalar :=
  if n = 0 then 1
  else
    let half := power (x * x) (n / 2)
    if n % 2 = 1 then half * x else half
termination_by n
decreasing_by omega

/-- The multiplicative inverse, zero for zero: the power with exponent `order - 2`. -/
def inverse (x : Scalar) : Scalar := x.power (order - 2)

/-- The multiplicative inverse of a scalar that has one. -/
def inverse? (x : Scalar) : Option Scalar := if x = 0 then none else some x.inverse

/-- The scalar of a 64-bit number. -/
def ofUInt64 (n : UInt64) : Scalar := ofNat n.toNat

/-- The scalar of a bit. -/
def ofBit (b : Bool) : Scalar := if b then 1 else 0

/-- The order of the numbers that scalars are held as. -/
def compare (a b : Scalar) : Ordering := Ord.compare a.val b.val

/-! ## Bytes -/

/-- The length of an encoded scalar. -/
def byteLength : Nat := 32

/-- The canonical encoding, 32 bytes, little endian. -/
def toBytes (x : Scalar) : Bytes := Bytes.ofNatLE byteLength x.val

/-- Reads a canonical encoding: 32 bytes that spell a number below the order. -/
def ofBytes (bs : Bytes) : Except Error Scalar :=
  if bs.length = byteLength then
    if h : Bytes.toNatLE bs < order then .ok ⟨Bytes.toNatLE bs, h⟩ else .error .invalidScalar
  else
    .error (.lengthMismatch byteLength bs.length)

/-- The class of the number a string of any length spells. -/
def ofWideBytes (bs : Bytes) : Scalar := ofNat (Bytes.toNatLE bs)

theorem order_lt : order < 256 ^ byteLength := by decide

@[simp] theorem length_toBytes (x : Scalar) : x.toBytes.length = byteLength :=
  Bytes.length_ofNatLE _ _

/-- A scalar is written with its lowest byte first. -/
@[simp] theorem toNatLE_toBytes (x : Scalar) : Bytes.toNatLE x.toBytes = x.val :=
  Bytes.toNatLE_ofNatLE_of_lt (Nat.lt_trans x.val_lt order_lt)

/-- An encoded scalar reads back. -/
@[simp] theorem ofBytes_toBytes (x : Scalar) : ofBytes x.toBytes = .ok x := by
  simp [ofBytes, x.val_lt]

/-- Different scalars have different bytes. -/
theorem toBytes_inj {x y : Scalar} : x.toBytes = y.toBytes ↔ x = y := by
  refine ⟨fun h => ?_, congrArg toBytes⟩
  have hread := ofBytes_toBytes x
  rw [h, ofBytes_toBytes] at hread
  exact (Except.ok.inj hread).symm

/-- What reads back is the canonical encoding. -/
theorem toBytes_of_ofBytes {bs : Bytes} {x : Scalar} (h : ofBytes bs = .ok x) :
    x.toBytes = bs := by
  unfold ofBytes at h
  split at h
  · next hlen =>
    split at h
    · cases h
      rw [toBytes, ← hlen]
      exact Bytes.ofNatLE_toNatLE bs
    · cases h
  · cases h

end Scalar

end ConfidentialPayment
