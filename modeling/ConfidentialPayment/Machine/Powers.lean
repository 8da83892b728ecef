import ConfidentialPayment.Machine
import ConfidentialPayment.Scalar.Vector

/-!
# ConfidentialPayment.Machine.Powers

Powers of scalars on the machine.

A power to an exponent of one word comes from a loop over the bits of the exponent, and a list of
powers from a loop with one multiplication a pass. Neither can fault: the exponent is only ever
halved, and both loops keep what they need in scalars.
-/

namespace ConfidentialPayment.Machine

/-- Multiplies the base into the result wherever the exponent has a bit, and squares the base from
one bit to the next. -/
def powerLoop (result base : Scalar) (exponent : UInt64) : Scalar :=
  if 0 < exponent then
    powerLoop (if exponent &&& 1 = 1 then result * base else result) (base * base) (exponent >>> 1)
  else result
termination_by exponent.toNat
decreasing_by
  rename_i hpos
  have hpos' : 0 < exponent.toNat := UInt64.lt_iff_toNat_lt.mp hpos
  have hhalf : (exponent >>> 1).toNat = exponent.toNat / 2 := Nat.shiftRight_eq_div_pow _ 1
  omega

/-- `x` to a power. -/
def power (x : Scalar) (exponent : UInt64) : Scalar := powerLoop 1 x exponent

/-- Appends a power and those that follow it. -/
def powersLoop (x : Scalar) : (count : Nat) → (powers : Array Scalar) → (next : Scalar) →
    Array Scalar
  | 0, powers, _ => powers
  | count + 1, powers, next => powersLoop x count (powers.push next) (next * x)

/-- The powers `x ^ 0, …, x ^ (count - 1)`. -/
def powers (x : Scalar) (count : Nat) : Array Scalar := powersLoop x count #[] 1

end ConfidentialPayment.Machine
