import ConfidentialPayment.Hash.Sha2
import ConfidentialPayment.Transcript

/-!
# ConfidentialPayment.Suite

What every protocol of the library is built on: a group of prime order with an encoding, and the
function that turns transcripts into challenges.

A type `P` with a `Suite` instance is a type of points. The protocols are written for any suite;
`ConfidentialPayment.Ristretto` has the one that programs use. The class holds operations only.
What a protocol's theory assumes of them is stated apart, as two propositions about a suite:

1. `LawfulGroup`: the points are a vector space over the scalars and `weightedSum` is the sum of
   the terms;
2. `LawfulEncoding`: `decode?` accepts exactly the encodings, each of which names one point.
-/

namespace ConfidentialPayment

/-- The operations of a group of prime order, its encoding and its challenges. -/
class Suite (P : Type) extends Zero P, Add P, Neg P, Sub P, SMul Scalar P where
  /-- Points are compared as group elements. -/
  decEq : DecidableEq P
  /-- The sum of points times scalars, in one pass. -/
  weightedSum : List (Scalar × P) → P
  /-- The conventional base point. -/
  basepoint : P
  /-- The encoding of a point. -/
  encode : P → Bytes
  /-- The point that a string encodes. -/
  decode? : Bytes → Option P
  /-- The point of 64 uniform bytes. -/
  ofUniform : Bytes → P
  /-- The next challenge of a transcript under a label. -/
  challenge : Transcript → String → Scalar

instance (P : Type) [Suite P] : DecidableEq P := Suite.decEq

/-- The length of an encoded point. -/
def pointLength : Nat := 32

/-- The points of a suite are a vector space over the scalars. -/
class LawfulGroup (P : Type) [Suite P] : Prop where
  add_assoc : ∀ a b c : P, a + b + c = a + (b + c)
  add_comm : ∀ a b : P, a + b = b + a
  zero_add : ∀ a : P, 0 + a = a
  neg_add_cancel : ∀ a : P, -a + a = 0
  sub_eq_add_neg : ∀ a b : P, a - b = a + -b
  one_smul : ∀ a : P, (1 : Scalar) • a = a
  mul_smul : ∀ (x y : Scalar) (a : P), (x * y) • a = x • y • a
  smul_add : ∀ (x : Scalar) (a b : P), x • (a + b) = x • a + x • b
  add_smul : ∀ (x y : Scalar) (a : P), (x + y) • a = x • a + y • a
  weightedSum_eq : ∀ terms : List (Scalar × P),
    Suite.weightedSum terms = terms.foldr (fun term sum => term.1 • term.2 + sum) 0

/-- The encoding of a suite names each point by exactly one string of `pointLength` bytes. -/
class LawfulEncoding (P : Type) [Suite P] : Prop where
  length_encode : ∀ a : P, (Suite.encode a).length = pointLength
  decode_encode : ∀ a : P, Suite.decode? (Suite.encode a) = some a
  encode_of_decode : ∀ {bs : Bytes} {a : P}, Suite.decode? bs = some a → Suite.encode a = bs

variable {P : Type} [Suite P]

/-! ## Points from bytes -/

/-- Reads an encoded point. -/
def readPoint (bs : Bytes) : Except Error P :=
  if bs.length = pointLength then
    match Suite.decode? bs with
    | some p => .ok p
    | none => .error .invalidPoint
  else
    .error (.lengthMismatch pointLength bs.length)

/-- The scalar of a message, uniform for a random function. -/
def hashToScalar (message : Bytes) : Scalar := Scalar.ofWideBytes (Hash.Sha512.hash message)

/-- The point of a message, uniform for a random function. -/
def hashToPoint (message : Bytes) : P := Suite.ofUniform (Hash.Sha512.hash message)

/-- The public point with a number under a domain, whose logarithms nobody knows. -/
def indexedPoint (domain : Bytes) (index : Nat) : P :=
  hashToPoint (domain ++ Bytes.ofNatLE 8 index)

/-- The order of points by their encodings. -/
def comparePoints (a b : P) : Ordering := Bytes.compare (Suite.encode a) (Suite.encode b)

/-! ## Sums of multiples -/

/-- `x₁ • p₁ + x₂ • p₂` in one pass. -/
def combine (x₁ : Scalar) (p₁ : P) (x₂ : Scalar) (p₂ : P) : P :=
  Suite.weightedSum [(x₁, p₁), (x₂, p₂)]

/-- The sum of the given points times the given scalars, of which there have to be as many. -/
def weightedSumOf (scalars : List Scalar) (points : List P) : Except Error P :=
  if scalars.length = points.length then .ok (Suite.weightedSum (scalars.zip points))
  else .error (.lengthMismatch scalars.length points.length)

/-- The sum of a list of points. -/
def sumPoints (points : List P) : P := points.foldr (· + ·) 0

namespace Transcript

/-! ## Points in transcripts -/

/-- Absorbs a point in its encoding. -/
def absorbPoint (t : Transcript) (label : String) (p : P) : Transcript :=
  t.absorb label (Suite.encode p)

/-- Absorbs how many points a list has and then each of them. -/
def absorbPoints (t : Transcript) (label : String) (points : List P) : Transcript :=
  points.foldl (fun t p => t.absorbPoint label p) (t.absorbNat label points.length)

variable (P) in
/-- Draws a challenge: the scalar and the transcript that remembers the draw. -/
def challenge (t : Transcript) (label : String) : Scalar × Transcript :=
  (Suite.challenge P t label, t.record (.challenge label))

end Transcript

end ConfidentialPayment
