import ConfidentialPayment.Ristretto.BaseField

/-!
# ConfidentialPayment.Ristretto.Edwards

The twisted Edwards curve `-x² + y² = 1 + d x² y²` in extended coordinates `(X : Y : Z : T)` with
`x = X / Z`, `y = Y / Z` and `T = X Y / Z`. Addition uses the complete formulas, so no case needs
an exception.

Coordinates are reduced; the sums and differences between two products are not.
-/

namespace ConfidentialPayment.Ristretto

/-- The curve constant `d = -121665 / 121666`. -/
def curveD : BaseField :=
  .ofNat 37095705934669439343138083508754565189542113879843219016388785533085940283555

/-- The constant of the curve is the quotient of two small numbers. -/
theorem curveD_mul : curveD * .ofNat 121666 = -.ofNat 121665 := by decide

/-- Twice the curve constant. -/
def curveD2 : BaseField := curveD + curveD

/-- A point of the curve in extended coordinates. -/
structure Edwards where
  x : BaseField
  y : BaseField
  z : BaseField
  t : BaseField

namespace Edwards

/-- A point prepared as the second operand of an addition: `y + x`, `y - x`, `2 z` and `2 d t`. -/
structure Prepared where
  sum : Nat
  difference : Nat
  z2 : Nat
  t2d : BaseField

/-- The point of affine coordinates. -/
def ofAffine (x y : BaseField) : Edwards := ⟨x, y, 1, x * y⟩

/-- The neutral point. -/
def zero : Edwards := ⟨0, 1, 1, 0⟩

/-- The point with the opposite sign. -/
def neg (p : Edwards) : Edwards := ⟨-p.x, p.y, p.z, -p.t⟩

/-! ## Addition -/

/-- The combinations of coordinates that additions use. -/
def prepare (p : Edwards) : Prepared :=
  ⟨p.y.plus p.x, p.y.minus p.x, p.z.plus p.z, p.t * curveD2⟩

/-- The prepared point with the opposite sign. -/
def Prepared.neg (q : Prepared) : Prepared := ⟨q.difference, q.sum, q.z2, -q.t2d⟩

/-- The sum with a prepared point. -/
def addPrepared (p : Edwards) (q : Prepared) : Edwards :=
  let a : BaseField := .timesNat (p.y.minus p.x) q.difference
  let b : BaseField := .timesNat (p.y.plus p.x) q.sum
  let c : BaseField := p.t * q.t2d
  let d : BaseField := .timesNat p.z.val q.z2
  let e := b.minus a
  let f := d.minus c
  let g := d.plus c
  let h := b.plus a
  ⟨.timesNat e f, .timesNat g h, .timesNat f g, .timesNat e h⟩

/-- The sum. -/
def add (p q : Edwards) : Edwards := p.addPrepared q.prepare

/-! ## Doubling -/

/-- A point without its fourth coordinate, which doublings do not need. -/
structure Projective where
  x : BaseField
  y : BaseField
  z : BaseField

/-- The four factors whose products are the coordinates of a doubled point. -/
structure DoubleFactors where
  e : Nat
  f : Nat
  g : Nat
  h : Nat

/-- The factors of the doubled point. -/
@[inline] def Projective.doubleFactors (p : Projective) : DoubleFactors :=
  let a := p.x.square
  let b := p.y.square
  let z2 := p.z.square
  let s := p.x.plus p.y
  let h := a.plus b
  let g := a.minus b
  { e := h + (BaseField.characteristic - (BaseField.timesNat s s).val)
    f := z2.plus z2 + g
    g, h }

/-- The doubled point without its fourth coordinate. -/
def Projective.double (p : Projective) : Projective :=
  let k := p.doubleFactors
  ⟨.timesNat k.e k.f, .timesNat k.g k.h, .timesNat k.f k.g⟩

/-- The point doubled some number of times. -/
def Projective.doubleTimes (p : Projective) : (count : Nat) → Projective
  | 0 => p
  | count + 1 => p.double.doubleTimes count

/-- The doubled point. -/
def Projective.doubleFully (p : Projective) : Edwards :=
  let k := p.doubleFactors
  ⟨.timesNat k.e k.f, .timesNat k.g k.h, .timesNat k.f k.g, .timesNat k.e k.h⟩

/-- The point times `2 ^ exponent`. -/
def timesTwoPower (p : Edwards) : (exponent : Nat) → Edwards
  | 0 => p
  | exponent + 1 => ((⟨p.x, p.y, p.z⟩ : Projective).doubleTimes exponent).doubleFully

end Edwards

end ConfidentialPayment.Ristretto
