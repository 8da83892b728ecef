import ConfidentialPayment.Equation
import ConfidentialPayment.PowerOfTwo
import ConfidentialPayment.Scalar.Vector
import ConfidentialPayment.Wire

/-!
# ConfidentialPayment.InnerProduct

The halving argument for `commitment = ⟨a, g⟩ + ⟨b, h⟩ + ⟨a, b⟩ • u`.

1. `Vectors` are two vectors of scalars over two vectors of bases; `Vectors.commitment` is the
   point above. A round sends the two cross terms of the halves, and `Vectors.fold` joins the
   halves by the challenge.
2. `Proof.create` runs the rounds down to vectors of one entry.
3. `foldWeights` says with which product of challenges every base enters the last one, so a
   verifier needs one equation, in which the challenges are free parameters.
4. The wire form is the number of rounds in one byte, the left cross terms, the right ones, the two
   scalars and the commitment.
-/

namespace ConfidentialPayment.InnerProduct

/-- The cross terms of one round. -/
structure Round (P : Type) where
  left : P
  right : P

/-- A proof: the rounds, the two scalars that are left, and the commitment. -/
structure Proof (P : Type) where
  rounds : List (Round P)
  a : Scalar
  b : Scalar
  commitment : P

/-- Vectors of scalars with the bases of their commitment. -/
structure Vectors (P : Type) where
  g : List P
  h : List P
  a : List Scalar
  b : List Scalar

/-- Every proof has fewer rounds. -/
def maxRounds : Nat := 32

/-- Whether the number of rounds is within bounds. -/
def Proof.isWellFormed {P : Type} (proof : Proof P) : Bool := proof.rounds.length < maxRounds

variable {P : Type} [Suite P]

instance : DecidableEq (Round P) := fun a b =>
  decidable_of_iff (a.left = b.left ∧ a.right = b.right)
    ⟨fun h => by cases a; cases b; simp_all, fun h => h ▸ ⟨rfl, rfl⟩⟩

instance : DecidableEq (Proof P) := fun a b =>
  decidable_of_iff
    (a.rounds = b.rounds ∧ a.a = b.a ∧ a.b = b.b ∧ a.commitment = b.commitment)
    ⟨fun h => by cases a; cases b; simp_all, fun h => h ▸ ⟨rfl, rfl, rfl, rfl⟩⟩

/-! ## Transcripts -/

/-- Opens an argument about vectors of the given length with its commitment. -/
def openArgument (t : Transcript) (length : Nat) (commitment : P) : Transcript :=
  (t.openInnerProduct length).absorbPoint "P" commitment

/-- Absorbs the cross terms of a round and draws its challenge. -/
def drawRound (t : Transcript) (r : Round P) : Scalar × Transcript :=
  ((t.absorbPoint "L" r.left).absorbPoint "R" r.right).challenge P "x"

/-- The challenges of rounds, and the transcript after them. -/
def drawRounds (t : Transcript) : List (Round P) → List Scalar × Transcript
  | [] => ([], t)
  | r :: rounds =>
    let (x, t) := drawRound t r
    let (xs, t) := drawRounds t rounds
    (x :: xs, t)

/-! ## Making proofs -/

namespace Vectors

/-- The commitment `⟨a, g⟩ + ⟨b, h⟩ + ⟨a, b⟩ • u`. -/
def commitment (u : P) (v : Vectors P) : P :=
  Suite.weightedSum (v.a.zip v.g ++ v.b.zip v.h ++ [(Scalar.dot v.a v.b, u)])

/-- The cross terms for halves of the given length: the lower half of `a` over the upper half of
`g` with the upper half of `b` over the lower half of `h`, and the other way round. -/
def cross (u : P) (half : Nat) (v : Vectors P) : Round P where
  left := commitment u ⟨v.g.drop half, v.h.take half, v.a.take half, v.b.drop half⟩
  right := commitment u ⟨v.g.take half, v.h.drop half, v.a.drop half, v.b.take half⟩

/-- The vectors of half the length for a challenge. -/
def fold (x : Scalar) (half : Nat) (v : Vectors P) : Vectors P :=
  let y := x.inverse
  { g := List.zipWith (fun lower upper => combine y lower x upper) (v.g.take half) (v.g.drop half)
    h := List.zipWith (fun lower upper => combine x lower y upper) (v.h.take half) (v.h.drop half)
    a := List.zipWith (fun lower upper => lower * x + y * upper) (v.a.take half) (v.a.drop half)
    b := List.zipWith (fun lower upper => lower * y + x * upper) (v.b.take half) (v.b.drop half) }

end Vectors

/-- The rounds for vectors of length `2 ^ count`: the cross terms, the scalars that are left, and
the transcript after the last challenge. -/
def proveRounds (u : P) : (count : Nat) → Transcript → Vectors P →
    List (Round P) × Scalar × Scalar × Transcript
  | 0, t, v => ([], v.a.headD 0, v.b.headD 0, t)
  | count + 1, t, v =>
    let r := v.cross u (2 ^ count)
    let (x, t) := drawRound t r
    let (rounds, a, b, t) := proveRounds u count t (v.fold x (2 ^ count))
    (r :: rounds, a, b, t)

/-- Refuses vectors of different lengths, and then a length that is no power of two. -/
def checkLengths (v : Vectors P) : Except Error Unit :=
  let n := v.g.length
  if v.h.length ≠ n then .error (.lengthMismatch n v.h.length)
  else if v.a.length ≠ n then .error (.lengthMismatch n v.a.length)
  else if v.b.length ≠ n then .error (.lengthMismatch n v.b.length)
  else if isPowerOfTwo n then .ok ()
  else .error (.lengthMismatch (pad n) n)

/-- The proof for vectors, and the transcript after it. -/
def Proof.create (t : Transcript) (u : P) (v : Vectors P) : Except Error (Proof P × Transcript) :=
  do
    checkLengths v
    let n := v.g.length
    let c := v.commitment u
    let (rounds, a, b, t) := proveRounds u (ceilLog2 n) (openArgument t n c) v
    return (⟨rounds, a, b, c⟩, t)

/-! ## Verification -/

/-- For every base the product of challenges that it enters the last base with: entry `i` has the
challenge of a round if the binary digit of `i` that the round halves by is set, and its inverse if
not. The first round halves by the most significant digit. -/
def foldWeights (challenges : List Scalar) : List Scalar :=
  challenges.foldr (fun x weights => weights ++ weights.map (· * (x * x)))
    [Scalar.product (challenges.map Scalar.inverse)]

/-- What a verifier checks for given challenges, over the bases `g` and `factors · h`: unfolding the
last commitment, with the cross terms taken off, gives the first one.

Each challenge is inverted on its own here. The verifier of `Machine.verifyArgument` inverts all of
them together, so that one challenge that is zero makes all the inverses zero; unless a challenge is
zero, both come to the same. -/
def equation (u : P) (g h : List P) (factors : List Scalar) (challenges : List Scalar)
    (proof : Proof P) : Equation P :=
  let weights := foldWeights challenges
  { statement := 1
    left := Suite.weightedSum <|
      (proof.a * proof.b, u) ::
        ((weights.map (proof.a * ·)).zip g ++
          (List.zipWith (fun weight factor => proof.b * weight * factor) weights.reverse
            factors).zip h ++
          (challenges.map fun x => -(x * x)).zip (proof.rounds.map Round.left) ++
          (challenges.map fun x => -(x.inverse * x.inverse)).zip (proof.rounds.map Round.right))
    right := proof.commitment }

/-- The challenges of a proof about vectors of length `n`, and the transcript after them. The
number of rounds has to fit the length. -/
def Proof.challenges (t : Transcript) (n : Nat) (proof : Proof P) :
    Except Error (List Scalar × Transcript) :=
  if proof.isWellFormed && n = 2 ^ proof.rounds.length then
    .ok (drawRounds (openArgument t n proof.commitment) proof.rounds)
  else
    .error (.rejected .innerProduct 0)

/-- Checks a proof over the bases `g` and `factors · h`; the result is the transcript after it. -/
def Proof.verify (t : Transcript) (u : P) (g h : List P) (factors : List Scalar)
    (proof : Proof P) : Except Error Transcript := do
  let n := g.length
  if h.length ≠ n ∨ factors.length ≠ n then
    throw (.lengthMismatch n (min h.length factors.length))
  let (challenges, t) ← proof.challenges t n
  Equation.checkAll .innerProduct [equation u g h factors challenges proof]
  return t

/-! ## Wire form -/

/-- The length of an encoded proof. -/
def Proof.byteLength (proof : Proof P) : Nat :=
  1 + (2 * proof.rounds.length + 1) * pointLength + 2 * Scalar.byteLength

/-- The encoding of a proof. -/
def Proof.toBytes (proof : Proof P) : Bytes :=
  Writer.nat8 proof.rounds.length ++ Writer.points (proof.rounds.map Round.left) ++
    Writer.points (proof.rounds.map Round.right) ++ proof.a.toBytes ++ proof.b.toBytes ++
    Suite.encode proof.commitment

/-- Reads the number of rounds. -/
def readRoundCount : Reader Nat := do
  let count ← Reader.nat8 "ipp rounds"
  if count < maxRounds then return count
  else Reader.fail (.malformed "ipp rounds" (.lengthMismatch (maxRounds - 1) count))

/-- Reads a proof from the front of a string. -/
def Proof.reader : Reader (Proof P) := do
  let count ← readRoundCount
  let lefts ← Reader.points "ipp L" count
  let rights ← Reader.points "ipp R" count
  let a ← Reader.scalar "ipp a"
  let b ← Reader.scalar "ipp b"
  let commitment ← Reader.point "ipp p"
  return ⟨List.zipWith Round.mk lefts rights, a, b, commitment⟩

/-- Reads a proof that fills a string. -/
def Proof.ofBytes (bs : Bytes) : Except Error (Proof P) := Proof.reader.decode bs

end ConfidentialPayment.InnerProduct
