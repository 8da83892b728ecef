import Mathlib.Algebra.Module.Basic
import ConfidentialPayment.Membership.Batch
import ConfidentialPayment.Proofs.Equation
import ConfidentialPayment.Proofs.Membership.Completeness

/-!
# ConfidentialPayment.Proofs.Membership.Batch

A batch of membership proofs is checked by one random combination of all their equations.

1. `Weights.point_combination`: what a batch adds up for one proof is the sum of the residuals of
   the proof's equations, each with its own weight.
2. `total_eq_weigh`: the sum of a batch is that of all equations, in the order in which the weights
   are drawn.
3. `outcome_verifyBatch`: so a batch of well-formed proofs is accepted exactly if this sum
   vanishes.
-/

namespace ConfidentialPayment.Membership

variable {P : Type} [Suite P] {gens : Generators P}

/-! ## Weights -/

/-- The number of equations of one proof: two for each digit and that of the ring. -/
def equationCount : ℕ := 2 * digitCount + 1

/-- A proof is checked by the same number of equations, whatever it contains. -/
theorem length_equations (ring : List P) (x : Scalar) (c : Commitment P) (r : Response) :
    (equations gens ring x c r).length = equationCount := rfl

/-- The weights of a proof in the order in which they are drawn. -/
def Weights.toList (w : Weights) : List Scalar :=
  (w.digits.toList.flatMap fun (value, bit) => [value, bit]) ++ [w.ring]

theorem Weights.length_toList (w : Weights) : w.toList.length = equationCount := by
  simp [toList, equationCount, List.length_flatMap, mul_comm]

/-- The weights of a proof are as many scalars in a row as the proof has equations. -/
theorem toList_drawWeights :
    Weights.toList <$> drawWeights = RandomSource.listOf RandomSource.scalar equationCount := rfl

/-! ## Sums -/

/-- The equations of all proofs of a batch, those of a proof at the challenge of its ring. -/
def batchEquations (gens : Generators P) (proofs : List (Proof P)) (rings : List (List P)) :
    List (Equation P) :=
  (proofs.zip rings).flatMap fun (proof, ring) =>
    equations gens ring (challenge ring proof.commitment) proof.commitment proof.response

/-- A batch has the equations of all its proofs. -/
theorem length_batchEquations (proofs : List (Proof P)) {rings : List (List P)}
    (h : proofs.length = rings.length) :
    (batchEquations gens proofs rings).length = proofs.length * equationCount := by
  simp [batchEquations, List.length_flatMap, length_equations, ← h]

variable [LawfulGroup P]

/-- The point that a combination stands for. -/
def Combination.point (gens : Generators P) (part : Combination P) : P :=
  Suite.weightedSum part.terms + part.onPrivateKey • gens.privateKey +
    part.onBlinding • gens.blinding

/-- What is summed up over the batch is the sum of what the proofs contribute. -/
theorem total_eq_sum_point (parts : List (Combination P)) :
    Combination.total gens parts = (parts.map (Combination.point gens)).sum := by
  induction parts with
  | nil => simp [Combination.total]
  | cons part parts ih =>
    rw [List.map_cons, List.sum_cons, ← ih]
    simp only [Combination.total, Combination.point, Scalar.sum_eq_sum, List.flatMap_cons,
      List.map_cons, List.sum_cons, weightedSum_append, weightedSum_cons, weightedSum_nil]
    module

/-- The residuals of the equations of a proof with their weights, digit by digit. -/
theorem weigh_residuals (w : Weights) (ring : List P) (x : Scalar) (c : Commitment P)
    (r : Response) :
    weigh w.toList ((equations gens ring x c r).map Equation.residual) =
      ∑ j : Fin digitCount, ((w.digits.get j).1 • (valueEquation gens x c r j).residual +
          (w.digits.get j).2 • (bitEquation gens x c r j).residual) +
        w.ring • (ringEquation gens ring x c r).residual := by
  have hweights : w.toList =
      ((List.finRange digitCount).flatMap fun j => [(w.digits.get j).1, (w.digits.get j).2]) ++
        [w.ring] := by
    rw [Weights.toList, Scalar.toList_eq_ofFn, List.ofFn_eq_map, List.flatMap_map]
  have hresiduals : (equations gens ring x c r).map Equation.residual =
      ((List.finRange digitCount).flatMap fun j : Fin digitCount =>
        [(valueEquation gens x c r j).residual, (bitEquation gens x c r j).residual]) ++
        [(ringEquation gens ring x c r).residual] := rfl
  rw [hweights, hresiduals, weigh_append (by simp [List.length_flatMap]),
    weigh_flatMap fun _ _ => by rfl, Fin.sum_univ_def]
  simp

/-- The combination of a proof is the sum of the residuals of its equations with their weights. -/
theorem Weights.point_combination (w : Weights) (ring : List P) (x : Scalar) (proof : Proof P) :
    (w.combination ring x proof).point gens = weigh w.toList
      ((equations gens ring x proof.commitment proof.response).map Equation.residual) := by
  obtain ⟨c, r⟩ := proof
  have hdigit (j : Fin digitCount) :
      (w.digits.get j).1 • (valueEquation gens x c r j).residual +
          (w.digits.get j).2 • (bitEquation gens x c r j).residual =
        Suite.weightedSum
            [((w.digits.get j).1 * x + (w.digits.get j).2 * (x - r.values.getD j 0),
                c.bits.getD j 0),
             ((w.digits.get j).1, c.masks.getD j 0), ((w.digits.get j).2, c.products.getD j 0)] -
          ((w.digits.get j).1 * r.values.getD j 0) • gens.privateKey -
          ((w.digits.get j).1 * r.maskOpenings.getD j 0 +
              (w.digits.get j).2 * r.productOpenings.getD j 0) • gens.blinding := by
    simp only [Equation.residual, valueEquation, bitEquation, Generators.commitTo_eq,
      Generators.get, weightedSum_cons, weightedSum_nil]
    module
  rw [weigh_residuals]
  simp only [hdigit, Finset.sum_sub_distrib, ← Finset.sum_smul]
  simp only [Combination.point, Weights.combination, Scalar.sum_eq_sum, weightedSum_append,
    weightedSum_flatMap, weightedSum_zip, ← Fin.sum_univ_def, weigh_map_neg, weigh_scale,
    Equation.residual, ringEquation, weigh_neg]
  module

/-- The sum of the combinations of a batch is that of the residuals of all equations with their
weights. -/
theorem total_eq_weigh {proofs : List (Proof P)} {rings : List (List P)} {weights : List Weights}
    (hweights : weights.length = (proofs.zip rings).length) :
    Combination.total gens (((proofs.zip rings).zip weights).map fun entry =>
        entry.2.combinationOf entry.1.1 entry.1.2) =
      weigh (weights.flatMap Weights.toList)
        ((batchEquations gens proofs rings).map Equation.residual) := by
  let entries := (proofs.zip rings).zip weights
  have hpairs : entries.map Prod.fst = proofs.zip rings := List.map_fst_zip hweights.ge
  have hparts : entries.map Prod.snd = weights := List.map_snd_zip hweights.le
  have hequations : (batchEquations gens proofs rings).map Equation.residual =
      entries.flatMap fun entry => (equations gens entry.1.2
        (challenge entry.1.2 entry.1.1.commitment) entry.1.1.commitment
          entry.1.1.response).map Equation.residual := by
    rw [batchEquations, List.map_flatMap, ← hpairs, List.flatMap_map]
  have hspelled : weights.flatMap Weights.toList = entries.flatMap fun entry => entry.2.toList := by
    rw [← hparts, List.flatMap_map]
  rw [total_eq_sum_point, List.map_map, hequations, hspelled,
    weigh_flatMap fun entry _ => by rw [List.length_map, length_equations, Weights.length_toList]]
  refine congrArg List.sum (List.map_congr_left fun entry _ => ?_)
  exact entry.2.point_combination _ _ entry.1.1

/-! ## Verification -/

omit [LawfulGroup P] in
/-- For proofs of the right shape, drawing the weights of one after the other is drawing all
weights. -/
theorem mapM_drawCombination {pairs : List (Proof P × List P)}
    (h : ∀ pair ∈ pairs, checkShape pair.2 pair.1 = .ok ()) :
    (pairs.mapM fun pair => drawCombination pair.1 pair.2) =
      ((do
        let weights ← RandomSource.listOf drawWeights pairs.length
        return (pairs.zip weights).map fun entry => entry.2.combinationOf entry.1.1 entry.1.2) :
          DrawExcept (List (Combination P))) := by
  induction pairs with
  | nil => rfl
  | cons pair pairs ih =>
    rw [List.forall_mem_cons] at h
    rw [List.mapM_cons, ih h.2, drawCombination, h.1]
    rfl

/-- A batch of well-formed proofs is accepted exactly if the equations of all proofs, weighted by
the next scalars of the tape, sum to zero. -/
theorem outcome_verifyBatch {proofs : List (Proof P)} {rings : List (List P)}
    (h : List.Forall₂ (fun proof ring => checkShape ring proof = .ok ()) proofs rings)
    (tape : RandomSource) :
    (verifyBatch gens proofs rings).outcome tape =
      if weigh (tape.scalars (proofs.length * equationCount))
          ((batchEquations gens proofs rings).map Equation.residual) = 0 then .ok ()
      else .error (.rejected .membership 0) := by
  have hlength : checkBatchLength proofs rings = .ok () := if_pos h.length_eq
  have hcount : (proofs.zip rings).length = proofs.length := by simp [h.length_eq]
  have hdraw := mapM_drawCombination fun pair (hpair : pair ∈ proofs.zip rings) =>
    (List.forall₂_iff_zip.mp h).2 hpair
  rw [verifyBatch, DrawExcept.outcome_ofExcept_bind, hlength, hdraw, bind_assoc]
  refine (DrawExcept.outcome_lift_bind _ _).trans ?_
  rw [pure_bind, total_eq_weigh (RandomSource.length_listOf ..),
    RandomSource.flatMap_run_listOf toList_drawWeights, hcount]
  split <;> rfl

omit [LawfulGroup P] in
/-- The equations of a batch hold exactly if its proofs are accepted one by one. -/
theorem forall_batchEquations_iff {proofs : List (Proof P)} {rings : List (List P)}
    (h : List.Forall₂ (fun proof ring => checkShape ring proof = .ok ()) proofs rings) :
    (∀ e ∈ batchEquations gens proofs rings, e.Holds) ↔
      List.Forall₂ (fun proof ring => proof.verify gens ring = .ok ()) proofs rings := by
  induction h with
  | nil => simp [batchEquations]
  | cons hshape _ ih =>
    rw [List.forall₂_cons, ← ih, Proof.verify_eq_ok_iff_of_checkShape hshape]
    simp only [batchEquations, List.zip_cons_cons, List.flatMap_cons, List.forall_mem_append]

omit [LawfulGroup P] in
/-- Proofs that are accepted have the right shape. -/
theorem forall₂_checkShape_of_verify {proofs : List (Proof P)} {rings : List (List P)}
    (h : List.Forall₂ (fun proof ring => proof.verify gens ring = .ok ()) proofs rings) :
    List.Forall₂ (fun proof ring => checkShape ring proof = .ok ()) proofs rings :=
  h.imp fun _ _ haccepted =>
    have ⟨hring, hproof, _⟩ := Proof.verify_eq_ok_iff.mp haccepted
    checkShape_eq_ok_iff.mpr ⟨hring, hproof⟩

/-- A batch of accepted proofs is accepted, whatever the weights are. -/
theorem outcome_verifyBatch_of_verify {proofs : List (Proof P)} {rings : List (List P)}
    (h : List.Forall₂ (fun proof ring => proof.verify gens ring = .ok ()) proofs rings)
    (tape : RandomSource) : (verifyBatch gens proofs rings).outcome tape = .ok () := by
  have hshape := forall₂_checkShape_of_verify h
  rw [outcome_verifyBatch hshape, if_pos]
  exact Equation.weigh_residuals_eq_zero ((forall_batchEquations_iff hshape).mpr h) _

/-- A batch of proofs that are accepted is accepted, whatever the weights. -/
theorem verifyBatch_ensures {proofs : List (Proof P)} {rings : List (List P)}
    (h : List.Forall₂ (fun proof ring => proof.verify gens ring = .ok ()) proofs rings) :
    (verifyBatch gens proofs rings).Ensures fun _ => True :=
  .of_outcome (outcome_verifyBatch_of_verify h) trivial

/-- Checking well-formed proofs in a batch agrees with checking them one by one. The batch is
accepted exactly if the residuals of all equations that single verification checks, weighted by the
scalars drawn, sum to zero. So a batch of accepted proofs is accepted on every tape; and if an
equation fails, then tapes that differ in its weight only cannot both be accepted. -/
theorem verifyBatch_agrees_with_verify (gens : Generators P) {proofs : List (Proof P)}
    {rings : List (List P)}
    (h : List.Forall₂ (fun proof ring => checkShape ring proof = .ok ()) proofs rings) :
    let accepts (tape : RandomSource) : Prop :=
      (verifyBatch gens proofs rings).outcome tape = .ok ()
    let equations := batchEquations gens proofs rings
    let weights (tape : RandomSource) : List Scalar := tape.scalars equations.length
    (∀ tape, accepts tape ↔ weigh (weights tape) (equations.map Equation.residual) = 0) ∧
    ((∀ e ∈ equations, e.Holds) ↔
      List.Forall₂ (fun proof ring => proof.verify gens ring = .ok ()) proofs rings) ∧
    (List.Forall₂ (fun proof ring => proof.verify gens ring = .ok ()) proofs rings →
      ∀ tape, accepts tape) ∧
    ∀ k (hk : k < equations.length), ¬ equations[k].Holds → ∀ tape tape',
      (∀ i, i ≠ k → (weights tape)[i]? = (weights tape')[i]?) → accepts tape → accepts tape' →
        (weights tape)[k]? = (weights tape')[k]? := by
  intro accepts equations weights
  have haccepts (tape : RandomSource) :
      accepts tape ↔ weigh (weights tape) (equations.map Equation.residual) = 0 := by
    simp only [accepts, weights, equations, outcome_verifyBatch h,
      length_batchEquations proofs h.length_eq, ite_eq_left_iff, reduceCtorEq, imp_false, not_not]
  exact ⟨haccepts, forall_batchEquations_iff h, outcome_verifyBatch_of_verify,
    Equation.getElem?_scalars_eq_of_accepts haccepts⟩

/-- An honest proof and a forged one, of which the last equation fails: the last of the fourteen
weights decides, and for given other weights at most one value of it accepts. -/
theorem verifyBatch_agrees_with_verify_ideal :
    let w := Witness.ideal
    let honest := w.proveWith .ideal ⟨.replicate _ 1, .replicate _ 2, .replicate _ 3,
      .replicate _ 4, .replicate _ 5⟩
    let forged : Proof Opening := { honest with
      response := { honest.response with ringOpening := honest.response.ringOpening + 1 } }
    ∀ tape tape',
      (∀ i, i ≠ 13 → (tape.scalars 14)[i]? = (tape'.scalars 14)[i]?) →
      (verifyBatch .ideal [honest, forged] [w.ring, w.ring]).outcome tape = .ok () →
      (verifyBatch .ideal [honest, forged] [w.ring, w.ring]).outcome tape' = .ok () →
      (tape.scalars 14)[13]? = (tape'.scalars 14)[13]? := by
  intro w honest forged
  have hshape : List.Forall₂ (fun proof ring => checkShape ring proof = .ok ()) [honest, forged]
      [w.ring, w.ring] := .cons rfl (.cons rfl .nil)
  obtain ⟨-, -, -, hunique⟩ := verifyBatch_agrees_with_verify .ideal hshape
  exact hunique 13 (by decide) (by decide +kernel)

end ConfidentialPayment.Membership
