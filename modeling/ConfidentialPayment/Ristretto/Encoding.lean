import ConfidentialPayment.Ristretto.Edwards

/-!
# ConfidentialPayment.Ristretto.Encoding

The ristretto255 encoding of RFC 9496: curve points up to a small subgroup, named by one
non-negative field element each.

1. `Edwards.code` names the class of a curve point.
2. `decode?` gives a representative of the class that a field element names, and refuses the
   elements that name none.
3. `Edwards.ofUniform` maps 64 uniform bytes to a curve point whose class is uniform.
-/

namespace ConfidentialPayment.Ristretto

/-- The inverse square root of `-1 - d`. -/
def inverseSqrtAMinusD : BaseField :=
  .ofNat 54469307008909316920995813868745141605393597292927456921205312896311721017578

/-- The constant is an inverse square root. -/
theorem inverseSqrtAMinusD_mul_self :
    inverseSqrtAMinusD.square * (-1 - curveD) = 1 := by decide

/-- A square root of `-d - 1`. -/
def sqrtADMinusOne : BaseField :=
  .ofNat 25063068953384623474111414158702152701244531502492656460079210482610430750235

/-- The constant is a square root. -/
theorem sqrtADMinusOne_mul_self : sqrtADMinusOne.square = -curveD - 1 := by decide

/-- `1 - d²`. -/
def oneMinusDSquared : BaseField := 1 - curveD.square

/-- `(d - 1)²`. -/
def dMinusOneSquared : BaseField := (curveD - 1).square

/-- The element that names the class of a curve point. -/
def Edwards.code (p : Edwards) : BaseField :=
  let u1 := (p.z + p.y) * (p.z - p.y)
  let u2 := p.x * p.y
  let root := (BaseField.sqrtRatio 1 (u1 * u2.square)).2
  let den1 := root * u1
  let den2 := root * u2
  let zInverse := den1 * den2 * p.t
  let turn := (p.t * zInverse).isNegative
  let x := if turn then p.y * BaseField.sqrtMinusOne else p.x
  let y := if turn then p.x * BaseField.sqrtMinusOne else p.y
  let denominator := if turn then den1 * inverseSqrtAMinusD else den2
  let y' := if (x * zInverse).isNegative then -y else y
  (denominator * (p.z - y')).abs

/-- The affine coordinates of a representative of the class that `s` names, if `s` names one.
Zero names the class of the neutral point. -/
def decode? (s : BaseField) : Option (BaseField × BaseField) :=
  if s = 0 then some (0, 1)
  else if s.isNegative then none
  else
    let ss := s.square
    let u1 := 1 - ss
    let u2 := 1 + ss
    let u2Squared := u2.square
    let v := -(curveD * u1.square) - u2Squared
    let (isSquare, root) := BaseField.sqrtRatio 1 (v * u2Squared)
    let denX := root * u2
    let denY := root * denX * v
    let x := ((s + s) * denX).abs
    let y := u1 * denY
    if isSquare && !(x * y).isNegative && y ≠ 0 then some (x, y) else none

/-- The curve point of one uniform field element. -/
def Edwards.ofElement (t : BaseField) : Edwards :=
  let r := BaseField.sqrtMinusOne * t.square
  let u := (r + 1) * oneMinusDSquared
  let v := (-1 - r * curveD) * (r + curveD)
  let (isSquare, root) := BaseField.sqrtRatio u v
  let s := if isSquare then root else -(root * t).abs
  let c := if isSquare then -1 else r
  let n := c * (r - 1) * dMinusOneSquared - v
  let w0 := (s + s) * v
  let w1 := n * sqrtADMinusOne
  let w2 := 1 - s.square
  let w3 := 1 + s.square
  ⟨w0 * w3, w2 * w1, w1 * w3, w0 * w2⟩

/-- The field element of 32 bytes, little endian, without the top bit. -/
def elementOfBytes (bs : Bytes) : BaseField := .ofNat (Bytes.toNatLE bs % 2 ^ (255 : Nat))

/-- The curve point of 64 uniform bytes: the sum of the points of the two halves. -/
def Edwards.ofUniform (bs : Bytes) : Edwards :=
  (Edwards.ofElement (elementOfBytes (bs.take 32))).add
    (Edwards.ofElement (elementOfBytes (bs.drop 32)))

end ConfidentialPayment.Ristretto
