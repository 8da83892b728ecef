import ConfidentialPayment.Bytes

/-!
# ConfidentialPayment.Ristretto.BaseField

The field of curve coordinates: integers modulo `2 ^ 255 - 19`.

An element is held as its least representative. An element is *negative* when that number is odd;
`abs` picks the other one of `x` and `-x`. `sqrtRatio u v` is the square root of `u / v` that every
encoding, decoding and hashing of points goes through.
-/

namespace ConfidentialPayment.Ristretto

/-- The characteristic of the field of coordinates. -/
def BaseField.characteristic : Nat := 2 ^ (255 : Nat) - 19

theorem BaseField.characteristic_pos : 0 < BaseField.characteristic := by decide

/-- An integer modulo `2 ^ 255 - 19`, held as its least representative. -/
structure BaseField where
  val : Nat
  val_lt : val < BaseField.characteristic
deriving DecidableEq

namespace BaseField

@[ext] theorem ext {a b : BaseField} (h : a.val = b.val) : a = b := by
  cases a; cases b; subst h; rfl

/-! ## Arithmetic -/

/-- The class of a number. -/
def ofNat (n : Nat) : BaseField := ⟨n % characteristic, Nat.mod_lt n characteristic_pos⟩

/-- The sum. -/
def add (a b : BaseField) : BaseField :=
  if h : a.val + b.val < characteristic then ⟨a.val + b.val, h⟩
  else ⟨a.val + b.val - characteristic, by have := a.val_lt; have := b.val_lt; omega⟩

/-- The difference. -/
def sub (a b : BaseField) : BaseField :=
  if h : b.val ≤ a.val then ⟨a.val - b.val, Nat.lt_of_le_of_lt (Nat.sub_le _ _) a.val_lt⟩
  else ⟨a.val + (characteristic - b.val), by
    have := Nat.sub_add_cancel (Nat.le_of_lt b.val_lt); omega⟩

instance : Zero BaseField := ⟨⟨0, characteristic_pos⟩⟩
instance : One BaseField := ⟨ofNat 1⟩
instance : Inhabited BaseField := ⟨0⟩
instance : Add BaseField := ⟨add⟩
instance : Sub BaseField := ⟨sub⟩
instance : Neg BaseField := ⟨fun a => 0 - a⟩
instance : Mul BaseField := ⟨fun a b => ofNat (a.val * b.val)⟩

/-! Chains of operations reduce products only: `plus` and `minus` give numbers of the right class
that may reach twice the characteristic. -/

/-- A number of the class of the sum. -/
@[inline] def plus (a b : BaseField) : Nat := a.val + b.val

/-- A number of the class of the difference. -/
@[inline] def minus (a b : BaseField) : Nat := a.val + (characteristic - b.val)

/-- The product of the classes of two numbers. -/
@[inline] def timesNat (m n : Nat) : BaseField := ofNat (m * n)

/-- The square. -/
def square (x : BaseField) : BaseField := x * x

/-- `x` squared `count` times over. -/
def squareTimes (x : BaseField) : (count : Nat) → BaseField
  | 0 => x
  | count + 1 => squareTimes x.square count

/-- The power of `x` whose exponent has `count` binary digits, all ones. -/
def onesPower (x : BaseField) (count : Nat) : BaseField :=
  if count = 0 then 1
  else if count % 2 = 1 then (onesPower x (count - 1)).square * x
  else
    let half := onesPower x (count / 2)
    half.squareTimes (count / 2) * half
termination_by count
decreasing_by all_goals omega

/-- The power with exponent `(characteristic - 5) / 8`, which is `4 * (2 ^ 250 - 1) + 1`. -/
def rootPower (x : BaseField) : BaseField := (onesPower x 250).squareTimes 2 * x

/-! ## Signs -/

/-- Whether the least representative is odd. -/
def isNegative (x : BaseField) : Bool := x.val % 2 = 1

/-- The element or its negative, whichever is not negative. -/
def abs (x : BaseField) : BaseField := if x.isNegative then -x else x

/-! ## Square roots -/

/-- A square root of minus one. -/
def sqrtMinusOne : BaseField :=
  ofNat 19681161376707505956807079304988542015446066515923890162744021073123829784752

/-- The constant is a square root of minus one. -/
theorem sqrtMinusOne_mul_self : sqrtMinusOne * sqrtMinusOne = -1 := by decide

/-- The non-negative root of `u / v` with `true` if `u / v` is a square; otherwise `false` with
the non-negative root of `sqrtMinusOne * u / v`. The root of `0 / v` is zero and that of `u / 0`
counts as zero and, for `u ≠ 0`, as no root. -/
def sqrtRatio (u v : BaseField) : Bool × BaseField :=
  let v3 := v.square * v
  let v7 := v3.square * v
  let r := u * v3 * (u * v7).rootPower
  let check := v * r.square
  let isRoot := check = u
  let isFlipped := check = -u
  let isTurned := check = -(u * sqrtMinusOne)
  let root := if isFlipped ∨ isTurned then r * sqrtMinusOne else r
  (isRoot ∨ isFlipped, root.abs)

end BaseField

end ConfidentialPayment.Ristretto
