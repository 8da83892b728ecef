import ConfidentialPayment.InnerProduct

/-!
# ConfidentialPayment.InnerProduct.Recursive

Verification round by round.

A verifier that does not collect its work into one equation does what the rounds say: each of them
halves both lists of bases and takes its cross terms into the commitment. The last commitment is
over one base on either side.
-/

namespace ConfidentialPayment.InnerProduct

variable {P : Type} [Suite P]

/-- The lower half of a list times one scalar and the upper half times another one. -/
def foldHalves (c c' : Scalar) (ps : List P) : List P :=
  let half := ps.length / 2
  List.zipWith (fun lower upper => c • lower + c' • upper) (ps.take half) (ps.drop half)

/-- Checks rounds one after the other; the result is the transcript after them. -/
def verifyRounds (u : P) (a b : Scalar) : Transcript → List (Round P) → (g h : List P) →
    (commitment : P) → Except Error Transcript
  | t, [], [g], [h], commitment =>
    if commitment = a • g + b • h + (a * b) • u then .ok t else .error (.rejected .innerProduct 1)
  | _, [], _, _, _ => .error (.rejected .innerProduct 0)
  | t, r :: rounds, g, h, commitment =>
    let (x, t) := drawRound t r
    let y := x.inverse
    verifyRounds u a b t rounds (foldHalves y x g) (foldHalves x y h)
      (commitment + (x * x) • r.left + (y * y) • r.right)

/-- Checks a proof over the bases `g` and `factors · h` round by round. -/
def Proof.verifyRecursively (t : Transcript) (u : P) (g h : List P) (factors : List Scalar)
    (proof : Proof P) : Except Error Transcript :=
  let n := g.length
  if h.length ≠ n ∨ factors.length ≠ n then
    .error (.lengthMismatch n (min h.length factors.length))
  else if proof.isWellFormed && n = 2 ^ proof.rounds.length then
    verifyRounds u proof.a proof.b (openArgument t n proof.commitment) proof.rounds g
      (List.zipWith (· • ·) factors h) proof.commitment
  else
    .error (.rejected .innerProduct 0)

end ConfidentialPayment.InnerProduct
