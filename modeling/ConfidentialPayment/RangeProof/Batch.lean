import ConfidentialPayment.RandomSource
import ConfidentialPayment.RangeProof

/-!
# ConfidentialPayment.RangeProof.Batch

Checking many range proofs with one sum.

Each of the three equations of a proof has a random weight. `Weights.combination` is the weighted
sum of their residuals, written with one term for each point that the proof brings and the merged
coefficients of the bases that all proofs share.
-/

namespace ConfidentialPayment.RangeProof

/-- The weights of the three equations of a proof. -/
structure Weights where
  polynomial : Scalar
  commitment : Scalar
  argument : Scalar

/-- Draws the weights of one proof. -/
def drawWeights : Draw Weights := do
  let polynomial ← RandomSource.scalar
  let commitment ← RandomSource.scalar
  let argument ← RandomSource.scalar
  return ⟨polynomial, commitment, argument⟩

/-- A sum over the points of a proof, the two lists of a table, its base of inner products, and two
generators of commitments. -/
structure Combination (P : Type) where
  terms : List (Scalar × P)
  onG : List Scalar
  onH : List Scalar
  onU : Scalar
  onValue : Scalar
  onBlinding : Scalar

/-- Entry-wise sum, as long as the longer list. -/
def addOverlapping : List Scalar → List Scalar → List Scalar
  | [], ys => ys
  | xs, [] => xs
  | x :: xs, y :: ys => (x + y) :: addOverlapping xs ys

variable {P : Type} [Suite P]

/-- The sum of several combinations. -/
def Combination.total (gens : Generators P) (table : GeneratorTable P)
    (parts : List (Combination P)) : P :=
  let onG := (parts.map Combination.onG).foldl addOverlapping []
  let onH := (parts.map Combination.onH).foldl addOverlapping []
  Suite.weightedSum <|
    onG.zip table.g ++ onH.zip table.h ++ parts.flatMap Combination.terms ++
      [(Scalar.sum (parts.map Combination.onValue), gens.value),
       (Scalar.sum (parts.map Combination.onBlinding), gens.blinding),
       (Scalar.sum (parts.map Combination.onU), table.u)]

/-- The weighted sum of the residuals of one proof for given challenges of its moves and of the
rounds of its argument. -/
def Weights.combination (k : Weights) (c : Challenges) (rounds : List Scalar) (proof : Proof P) :
    Combination P :=
  let count := pad proof.commitments.length
  let n := bitCount * count
  let yPowers := c.y.powers n
  let yInversePowers := c.y.inverse.powers n
  let folds := InnerProduct.foldWeights rounds
  let argument := proof.argument
  let e := proof.evaluation
  { terms :=
      (Scalar.scale k.polynomial (valueWeights c.z proof.commitments.length)).zip
        proof.commitments ++
        [(k.polynomial * c.x, proof.polynomial.linear),
         (k.polynomial * c.x * c.x, proof.polynomial.quadratic),
         (k.commitment, proof.vectors.digits), (k.commitment * c.x, proof.vectors.masks)] ++
        (rounds.map fun x => -(k.argument * (x * x))).zip
          (argument.rounds.map InnerProduct.Round.left) ++
        (rounds.map fun x => -(k.argument * (x.inverse * x.inverse))).zip
          (argument.rounds.map InnerProduct.Round.right) ++
        [(-(k.commitment + k.argument), argument.commitment)]
    onG := folds.map fun fold => k.argument * argument.a * fold - k.commitment * c.z
    onH := Scalar.addEach
      (List.zipWith (fun weight power => k.commitment * (c.z + weight * power))
        (digitWeights c.z count) yInversePowers)
      (List.zipWith (fun fold power => k.argument * argument.b * fold * power) folds.reverse
        yInversePowers)
    onU := k.commitment * e.value * c.w + k.argument * argument.a * argument.b * c.w
    onValue := k.polynomial * (delta yPowers c.z count - e.value)
    onBlinding := -(k.polynomial * e.blinding + k.commitment * e.vectorBlinding) }

/-- The combination of one proof at the challenges of its own transcript. -/
def Weights.combinationOf (table : GeneratorTable P) (k : Weights) (proof : Proof P) :
    Except Error (Combination P) :=
  let (c, t) := proof.challenges table
  match proof.argument.challenges t (vectorLength proof.commitments.length) with
  | .ok (rounds, _) => .ok (k.combination c rounds proof)
  | .error _ => .error (.rejected .range 0)

/-- Checks every proof with given weights. A failure of the sum is reported as statement 0. -/
def verifyBatchWith (gens : Generators P) (table : GeneratorTable P) (proofs : List (Proof P))
    (weights : List Weights) : Except Error Unit := do
  let parts ← (proofs.zip weights).mapM fun (proof, k) => k.combinationOf table proof
  if Combination.total gens table parts = 0 then .ok () else .error (.rejected .range 0)

/-- Checks every proof. The first one of the wrong shape is reported before anything is drawn. -/
def verifyBatch (gens : Generators P) (table : GeneratorTable P) (proofs : List (Proof P)) :
    DrawExcept Unit := do
  DrawExcept.ofExcept (proofs.forM (checkShape table))
  let weights ← RandomSource.listOf drawWeights proofs.length
  DrawExcept.ofExcept (verifyBatchWith gens table proofs weights)

end ConfidentialPayment.RangeProof
