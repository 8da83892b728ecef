import ConfidentialPayment.Machine
import ConfidentialPayment.Polynomial

/-!
# ConfidentialPayment.Machine.Polynomial

Products of polynomials on the machine.

A polynomial is a list of integers without bounds, the constant coefficient first. A product is
accumulated in place, one pair of coefficients after the other, in as many zeros as it will have
coefficients, and reduced at its end. A coefficient becomes a scalar by way of its shortest byte
string, which has to fit into the buffer of a scalar. Positions in lists that are in memory add up
to words, so only their bounds are checked.
-/

namespace ConfidentialPayment

/-- The shortest string that spells a number, least significant byte first, where zero has one
byte. -/
def Bytes.ofNatShortest (n : Nat) : Bytes :=
  if n < 256 then [UInt8.ofNat n] else UInt8.ofNat n :: ofNatShortest (n / 256)
termination_by n
decreasing_by omega

namespace Machine

/-! ## Scalars and integers -/

/-- The integer that the bytes of a scalar spell. -/
def integerOf (x : Scalar) : Int := Bytes.toNatLE x.toBytes

/-- A buffer with a string copied to its front. -/
def overwrite (buffer bs : Bytes) : Machine Bytes :=
  if bs.length ≤ buffer.length then .ok (bs ++ buffer.drop bs.length) else fault .range

/-- The scalar of an integer, read from the buffer that its least representative is copied to. -/
def scalarOf (n : Int) : Machine Scalar := do
  let bs := Bytes.ofNatShortest (n.fmod Scalar.order).natAbs
  let buffer ← overwrite (List.replicate Scalar.byteLength 0) bs
  return Scalar.ofWideBytes buffer

/-! ## Polynomials -/

/-- Adds to the entry of a list at a place. -/
def addAt (sums : List Int) (place : Nat) (term : Int) : Machine (List Int) :=
  if place < sums.length then .ok (sums.modify place (· + term)) else fault .range

/-- Adds the products of coefficient `i` of one polynomial with all coefficients of another one. -/
def addRow (q : List Int) (sums : List Int) : Int × Nat → Machine (List Int)
  | (a, i) => q.zipIdx.foldlM (fun sums (b, j) => addAt sums (i + j) (a * b)) sums

/-- The product of two polynomials, reduced. -/
def multiply (p q : List Int) : Machine (List Int) := do
  let length ← sub (p.length + q.length) 1
  let sums ← p.zipIdx.foldlM (addRow q) (List.replicate length 0)
  return sums.map fun c => c.fmod Scalar.order

/-- The product of `slope * X + constant` over a list of pairs `(slope, constant)`. -/
def multiplyFactors (factors : List (Scalar × Scalar)) : Machine (List Int) :=
  factors.foldlM (fun p factor => multiply p [integerOf factor.2, integerOf factor.1]) [1]

/-- The coefficient of `X ^ k`, zero past the degree. -/
def coefficient (p : List Int) (k : Nat) : Machine Scalar :=
  match p[k]? with
  | some c => scalarOf c
  | none => .ok 0

end Machine

end ConfidentialPayment
