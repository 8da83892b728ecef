import Mathlib.Algebra.Module.Basic
import ConfidentialPayment.Proofs.Equation
import ConfidentialPayment.Proofs.RangeProof.Completeness
import ConfidentialPayment.RangeProof.Batch

/-!
# ConfidentialPayment.Proofs.RangeProof.Batch

A batch of range proofs is checked by one random combination of all their equations.

1. `Weights.point_combination`: what a batch adds up for one proof is the sum of the residuals of
   its three equations, each with its own weight. The bases behind the length of a proof and the
   commitments of its padding contribute nothing, so proofs of different sizes share the sums.
2. `outcome_verifyBatch`: a batch of well-formed proofs is accepted exactly if the equations of all
   proofs, weighted by the scalars drawn, sum to zero.
3. A proof of the wrong shape is refused with the error that it is refused with on its own, before
   anything is drawn (`outcome_verifyBatch_of_malformed`).
-/

namespace ConfidentialPayment.RangeProof

open Scalar

variable {P : Type} [Suite P] {gens : Generators P} {table : GeneratorTable P} {proof : Proof P}

/-! ## Equations -/

/-- The equation of a proof's argument, over the second list rescaled by the powers of `y`. -/
def Proof.argumentEquation (table : GeneratorTable P) (proof : Proof P) : Equation P :=
  let c := (proof.challenges table).1
  let n := vectorLength proof.commitments.length
  InnerProduct.equation (c.w • table.u) (table.g.take n) (table.h.take n) (c.y.inverse.powers n)
    (proof.roundChallenges table) proof.argument

/-- The equations of a proof at the challenges of its transcript: the value of the polynomial, the
commitment of the argument, and the argument itself. -/
def Proof.equations (gens : Generators P) (table : GeneratorTable P) (proof : Proof P) :
    List (Equation P) :=
  let c := (proof.challenges table).1
  let commitments := padded 0 proof.commitments
  [polynomialEquation gens c commitments proof.polynomial proof.evaluation,
   commitmentEquation gens table c commitments.length proof, proof.argumentEquation table]

/-- The number of equations of one proof. -/
def equationCount : ℕ := 3

/-- A proof is checked by the same number of equations, whatever it contains. -/
theorem length_equations (proof : Proof P) :
    (proof.equations gens table).length = equationCount := rfl

/-- The rounds of a well-formed proof fit its length, so their challenges can be drawn. -/
theorem Proof.exists_challenges_argument (h : checkShape table proof = .ok ()) :
    ∃ t, proof.argument.challenges (proof.challenges table).2
      (vectorLength proof.commitments.length) = .ok (proof.roundChallenges table, t) := by
  obtain ⟨⟨-, hle, hrounds⟩, -⟩ := checkShape_eq_ok_iff.mp h
  rw [roundChallenges, vectorLength_eq, ← hrounds]
  exact ⟨_, InnerProduct.Proof.challenges_eq (hrounds ▸ roundCount_lt hle) _⟩

/-- The argument inside a proof of the right shape is accepted exactly if its equation holds. -/
theorem Proof.verifyArgument_eq_ok_iff (h : checkShape table proof = .ok ()) :
    proof.verifyArgument table (proof.challenges table).1 (proof.challenges table).2 = .ok () ↔
      (proof.argumentEquation table).Holds := by
  let c := (proof.challenges table).1
  let n := vectorLength proof.commitments.length
  have hcapacity := (checkShape_eq_ok_iff.mp h).2
  have hg : (table.g.take n).length = n := length_take_g hcapacity
  obtain ⟨t, hchallenges⟩ := Proof.exists_challenges_argument h
  have hverify : proof.argument.verify (proof.challenges table).2 (c.w • table.u)
      (table.g.take n) (table.h.take n) (c.y.inverse.powers n) =
      if (proof.argumentEquation table).Holds then .ok t
      else .error (.rejected .innerProduct 1) :=
    InnerProduct.Proof.verify_eq ((length_take_h hcapacity).trans hg.symm)
      ((length_powers ..).trans hg.symm) (hg.symm ▸ hchallenges)
  rw [verifyArgument, hverify]
  by_cases hholds : (proof.argumentEquation table).Holds
  · simp [hholds]
  · simp [hholds]

/-- A well-formed proof is accepted exactly if its equations hold. -/
theorem Proof.verify_eq_ok_iff_of_checkShape (h : checkShape table proof = .ok ()) :
    proof.verify gens table = .ok () ↔ ∀ e ∈ proof.equations gens table, e.Holds := by
  rw [verify_eq_ok_iff, and_iff_right h, verifyArgument_eq_ok_iff h]
  simp [equations]

/-! ## Weights -/

/-- The weights of a proof in the order in which they are drawn. -/
def Weights.toList (k : Weights) : List Scalar := [k.polynomial, k.commitment, k.argument]

/-- The weights of a proof are as many scalars in a row as the proof has equations. -/
theorem toList_drawWeights :
    Weights.toList <$> drawWeights = RandomSource.listOf RandomSource.scalar equationCount := rfl

/-! ## Sums -/

section Sums

variable {M : Type} [AddCommGroup M] [Module Scalar M]

/-- Lists of weights that are added where they overlap weigh what both weigh. -/
theorem weigh_addOverlapping (xs ys : List Scalar) (ms : List M) :
    weigh (addOverlapping xs ys) ms = weigh xs ms + weigh ys ms := by
  induction xs generalizing ys ms with
  | nil => simp [addOverlapping]
  | cons x xs ih =>
    cases ys with
    | nil => simp [addOverlapping]
    | cons y ys =>
      cases ms with
      | nil => simp
      | cons m ms =>
        simp only [addOverlapping, weigh_cons, ih]
        module

/-- Weights added up entry by entry. -/
theorem weigh_foldl_addOverlapping (xss : List (List Scalar)) (start : List Scalar)
    (ms : List M) :
    weigh (xss.foldl addOverlapping start) ms =
      weigh start ms + (xss.map fun xs => weigh xs ms).sum := by
  induction xss generalizing start with
  | nil => simp
  | cons xs xss ih =>
    rw [List.foldl_cons, ih, weigh_addOverlapping, List.map_cons, List.sum_cons, add_assoc]

end Sums

variable [LawfulGroup P]

/-- The point that a combination stands for. -/
def Combination.point (gens : Generators P) (table : GeneratorTable P) (part : Combination P) :
    P :=
  weigh part.onG table.g + weigh part.onH table.h + Suite.weightedSum part.terms +
    part.onValue • gens.value + part.onBlinding • gens.blinding + part.onU • table.u

/-- What is summed up over the batch is the sum of what the proofs contribute. -/
theorem total_eq_sum_point (parts : List (Combination P)) :
    Combination.total gens table parts = (parts.map (Combination.point gens table)).sum := by
  simp only [Combination.total, weightedSum_append, weightedSum_zip, weightedSum_flatMap,
    weightedSum_cons, weightedSum_nil, weigh_foldl_addOverlapping, weigh_nil_left, List.map_map,
    Scalar.sum_eq_sum]
  induction parts with
  | nil => simp
  | cons part parts ih =>
    simp only [List.map_cons, List.sum_cons, ← ih, Combination.point, Function.comp_apply]
    module

/-- The commitments of the padding do not count. -/
theorem weigh_padded (z : Scalar) (commitments : List P) :
    weigh (valueWeights z (pad commitments.length)) (padded 0 commitments) =
      weigh (valueWeights z commitments.length) commitments := by
  rw [padded, weigh_append_replicate_zero, ← weigh_take_left rfl, valueWeights,
    take_geometric _ _ (le_pad _)]
  rfl

omit [LawfulGroup P] in
/-- There is one weight for each of the digits, padded. -/
theorem Proof.length_foldWeights (h : checkShape table proof = .ok ()) :
    (InnerProduct.foldWeights (proof.roundChallenges table)).length =
      vectorLength proof.commitments.length := by
  obtain ⟨⟨-, -, hrounds⟩, -⟩ := checkShape_eq_ok_iff.mp h
  rw [InnerProduct.length_foldWeights, roundChallenges, InnerProduct.Proof.roundChallenges,
    InnerProduct.length_drawRounds, hrounds, vectorLength_eq]

section Coefficients

variable (k : Weights) (c : Challenges) (rounds : List Scalar)

/-- The first list of a table enters the second and the third equation of a proof, up to the length
of its vectors. -/
theorem Weights.weigh_onG {n : ℕ} (hfolds : (InnerProduct.foldWeights rounds).length = n)
    (hcapacity : n ≤ table.capacity) :
    weigh (k.combination c rounds proof).onG table.g =
      (k.argument * proof.argument.a) • weigh (InnerProduct.foldWeights rounds) (table.g.take n) -
        (k.commitment * c.z) • (table.g.take n).sum := by
  have honG : (k.combination c rounds proof).onG =
      ((InnerProduct.foldWeights rounds).map (k.argument * proof.argument.a * ·)).map
        (· + -(k.commitment * c.z)) := by
    simp only [combination, List.map_map, Function.comp_def, sub_eq_add_neg]
  rw [honG, weigh_map_add_take _ ((List.length_map _).trans hfolds) hcapacity, weigh_scale,
    neg_smul, sub_eq_add_neg]

/-- So does the second list, rescaled by the powers of `y` except for the constants of `z`. -/
theorem Weights.weigh_onH {n : ℕ} (hn : bitCount * pad proof.commitments.length = n)
    (hfolds : (InnerProduct.foldWeights rounds).length = n) (hcapacity : n ≤ table.capacity) :
    weigh (k.combination c rounds proof).onH table.h =
      (k.commitment * c.z) • (table.h.take n).sum +
        k.commitment • weigh (digitWeights c.z (pad proof.commitments.length))
          (List.zipWith (· • ·) (c.y⁻¹.powers n) (table.h.take n)) +
        (k.argument * proof.argument.b) • weigh (InnerProduct.foldWeights rounds).reverse
          (List.zipWith (· • ·) (c.y⁻¹.powers n) (table.h.take n)) := by
  set digits := digitWeights c.z (pad proof.commitments.length)
  set folds := (InnerProduct.foldWeights rounds).reverse
  set powers := c.y⁻¹.powers n
  have hproducts {xs : List Scalar} (hxs : xs.length = n) :
      (List.zipWith (· * ·) xs powers).length = n := by
    simp [hxs, powers]
  have hdigits := hproducts ((length_digitWeights c.z _).trans hn)
  have hreverse := hproducts ((List.length_reverse ..).trans hfolds)
  have honH : (k.combination c rounds proof).onH = List.zipWith (· + ·)
      (((List.zipWith (· * ·) digits powers).map (· + c.z)).map (k.commitment * ·))
      ((List.zipWith (· * ·) folds powers).map (k.argument * proof.argument.b * ·)) := by
    simp only [combination, addEach, hn, Scalar.inverse_eq_inv, List.map_zipWith, mul_assoc,
      add_comm c.z, digits, folds, powers]
  have hcapacity' : n ≤ table.h.length := table.length_eq ▸ hcapacity
  rw [honH, weigh_add_left _ (by rw [List.length_map, List.length_map, List.length_map, hdigits,
    hreverse]), weigh_scale, weigh_scale, weigh_map_add_take _ hdigits hcapacity',
    ← weigh_take hreverse, weigh_mul, weigh_mul]
  module

end Coefficients

/-- The combination of a well-formed proof is the sum of the residuals of its equations with their
weights. -/
theorem Weights.point_combination (h : checkShape table proof = .ok ()) (k : Weights) :
    (k.combination (proof.challenges table).1 (proof.roundChallenges table) proof).point gens
      table = weigh k.toList ((proof.equations gens table).map Equation.residual) := by
  have hcapacity := (checkShape_eq_ok_iff.mp h).2
  have hfolds := Proof.length_foldWeights h
  have hn : bitCount * pad proof.commitments.length = vectorLength proof.commitments.length := rfl
  rw [Combination.point, k.weigh_onG _ _ hfolds hcapacity, k.weigh_onH _ _ hn hfolds hcapacity]
  simp only [Proof.equations, toList, List.map_cons, List.map_nil, weigh_cons, weigh_nil_right,
    add_zero, Equation.residual, polynomialEquation, commitmentEquation, Proof.argumentEquation,
    InnerProduct.left_equation, InnerProduct.right_equation, length_padded, weightedSum_append,
    weightedSum_zip, weightedSum_cons, weightedSum_nil, weigh_padded,
    argumentCommitment_eq_sum _ _ _ hcapacity]
  simp only [Weights.combination, weightedSum_append, weightedSum_zip, weightedSum_cons,
    weightedSum_nil, scale, weigh_scale, weigh_map_neg, weigh_map_mul, hn, Scalar.inverse_eq_inv]
  module

/-! ## Verification -/

/-- The equations of all proofs of a batch. -/
def batchEquations (gens : Generators P) (table : GeneratorTable P) (proofs : List (Proof P)) :
    List (Equation P) := proofs.flatMap (Proof.equations gens table)

omit [LawfulGroup P] in
/-- A batch has the equations of all its proofs. -/
theorem length_batchEquations (proofs : List (Proof P)) :
    (batchEquations gens table proofs).length = proofs.length * equationCount := by
  simp [batchEquations, List.length_flatMap, length_equations]

omit [LawfulGroup P] in
/-- A well-formed proof has a combination for all weights. -/
theorem Weights.combinationOf_eq (h : checkShape table proof = .ok ()) (k : Weights) :
    k.combinationOf table proof =
      .ok (k.combination (proof.challenges table).1 (proof.roundChallenges table) proof) := by
  obtain ⟨t, hchallenges⟩ := Proof.exists_challenges_argument h
  simp only [combinationOf, hchallenges]

variable {proofs : List (Proof P)}

/-- The sum of a batch of well-formed proofs is that of the residuals of all equations with their
weights. -/
theorem verifyBatchWith_eq (h : ∀ proof ∈ proofs, checkShape table proof = .ok ())
    {weights : List Weights} (hweights : weights.length = proofs.length) :
    verifyBatchWith gens table proofs weights =
      if weigh (weights.flatMap Weights.toList)
          ((batchEquations gens table proofs).map Equation.residual) = 0 then .ok ()
      else .error (.rejected .range 0) := by
  let entries := proofs.zip weights
  let combine (entry : Proof P × Weights) : Combination P :=
    entry.2.combination (entry.1.challenges table).1 (entry.1.roundChallenges table) entry.1
  have hshape (entry) (hentry : entry ∈ entries) : checkShape table entry.1 = .ok () :=
    h entry.1 (List.of_mem_zip hentry).1
  have hproofs : entries.map Prod.fst = proofs := List.map_fst_zip hweights.ge
  have hsnd : entries.map Prod.snd = weights := List.map_snd_zip hweights.le
  have hparts : (entries.mapM fun entry => entry.2.combinationOf table entry.1) =
      .ok (entries.map combine) := by
    rw [mapM_eq_ok, List.forall₂_map_right_iff, List.forall₂_same]
    exact fun entry hentry => entry.2.combinationOf_eq (hshape entry hentry)
  have hresiduals : (batchEquations gens table proofs).map Equation.residual =
      entries.flatMap fun entry => (entry.1.equations gens table).map Equation.residual := by
    rw [batchEquations, List.map_flatMap, ← hproofs, List.flatMap_map]
  have hspelled : weights.flatMap Weights.toList = entries.flatMap fun entry => entry.2.toList := by
    rw [← hsnd, List.flatMap_map]
  have hsum : Combination.total gens table (entries.map combine) =
      weigh (weights.flatMap Weights.toList)
        ((batchEquations gens table proofs).map Equation.residual) := by
    rw [total_eq_sum_point, List.map_map, hresiduals, hspelled, weigh_flatMap fun _ _ => by rfl]
    refine congrArg List.sum (List.map_congr_left fun entry hentry => ?_)
    exact entry.2.point_combination (hshape entry hentry)
  rw [← hsum]
  exact congrArg (· >>= _) hparts

/-- A batch of well-formed proofs is accepted exactly if the equations of all proofs, weighted by
the next scalars of the tape, sum to zero. -/
theorem outcome_verifyBatch (h : ∀ proof ∈ proofs, checkShape table proof = .ok ())
    (tape : RandomSource) :
    (verifyBatch gens table proofs).outcome tape =
      if weigh (tape.scalars (proofs.length * equationCount))
          ((batchEquations gens table proofs).map Equation.residual) = 0 then .ok ()
      else .error (.rejected .range 0) := by
  rw [verifyBatch, DrawExcept.outcome_ofExcept_bind, forM_eq_ok.mpr h]
  refine (DrawExcept.outcome_lift_bind _ _).trans ?_
  rw [DrawExcept.outcome_ofExcept, verifyBatchWith_eq h (RandomSource.length_listOf ..),
    RandomSource.flatMap_run_listOf toList_drawWeights]

omit [LawfulGroup P] in
/-- A batch with a proof of the wrong shape is refused for the first such proof, with the error that
the proof is refused with on its own. -/
theorem outcome_verifyBatch_of_malformed
    (h : ¬ ∀ proof ∈ proofs, checkShape table proof = .ok ()) :
    ∃ before proof after e, proofs = before ++ proof :: after ∧
      (∀ b ∈ before, checkShape table b = .ok ()) ∧ checkShape table proof = .error e ∧
      proof.verify gens table = .error e ∧
      ∀ tape, (verifyBatch gens table proofs).outcome tape = .error e := by
  obtain ⟨before, proof, after, e, hproofs, hbefore, hproof, herror⟩ := exists_first_error h
  refine ⟨before, proof, after, e, hproofs, hbefore, hproof, ?_, fun tape => ?_⟩
  · rw [Proof.verify, hproof]
    rfl
  · rw [verifyBatch, DrawExcept.outcome_ofExcept_bind, herror]
    rfl

omit [LawfulGroup P] in
/-- The equations of a batch hold exactly if its proofs are accepted one by one. -/
theorem forall_batchEquations_iff (h : ∀ proof ∈ proofs, checkShape table proof = .ok ()) :
    (∀ e ∈ batchEquations gens table proofs, e.Holds) ↔
      ∀ proof ∈ proofs, proof.verify gens table = .ok () := by
  rw [batchEquations, List.forall_mem_flatMap]
  exact forall₂_congr fun proof hproof =>
    (Proof.verify_eq_ok_iff_of_checkShape (h proof hproof)).symm

/-- Checking range proofs in a batch agrees with checking them one by one. The first proof of the
wrong shape is refused with its own error. If there is none, the batch is accepted exactly if the
residuals of all equations that single verification checks, weighted by the scalars drawn, sum to
zero. So a batch of accepted proofs is accepted on every tape; and if an equation fails, then tapes
that differ in its weight only cannot both be accepted. -/
theorem verifyBatch_matches_single_verification (gens : Generators P) (table : GeneratorTable P)
    (proofs : List (Proof P)) :
    let accepts (tape : RandomSource) : Prop :=
      (verifyBatch gens table proofs).outcome tape = .ok ()
    let equations := batchEquations gens table proofs
    let weights (tape : RandomSource) : List Scalar := tape.scalars equations.length
    ((¬ ∀ proof ∈ proofs, checkShape table proof = .ok ()) →
      ∃ before proof after e, proofs = before ++ proof :: after ∧
        (∀ b ∈ before, checkShape table b = .ok ()) ∧ checkShape table proof = .error e ∧
        proof.verify gens table = .error e ∧
        ∀ tape, (verifyBatch gens table proofs).outcome tape = .error e) ∧
    ((∀ proof ∈ proofs, checkShape table proof = .ok ()) →
      (∀ tape, accepts tape ↔ weigh (weights tape) (equations.map Equation.residual) = 0) ∧
      ((∀ e ∈ equations, e.Holds) ↔ ∀ proof ∈ proofs, proof.verify gens table = .ok ()) ∧
      ∀ k (hk : k < equations.length), ¬ equations[k].Holds → ∀ tape tape',
        (∀ i, i ≠ k → (weights tape)[i]? = (weights tape')[i]?) → accepts tape → accepts tape' →
          (weights tape)[k]? = (weights tape')[k]?) ∧
    ((∀ proof ∈ proofs, proof.verify gens table = .ok ()) → ∀ tape, accepts tape) := by
  intro accepts equations weights
  have haccepts (h : ∀ proof ∈ proofs, checkShape table proof = .ok ()) (tape : RandomSource) :
      accepts tape ↔ weigh (weights tape) (equations.map Equation.residual) = 0 := by
    simp only [accepts, weights, equations, outcome_verifyBatch h, length_batchEquations,
      ite_eq_left_iff, reduceCtorEq, imp_false, not_not]
  refine ⟨outcome_verifyBatch_of_malformed, fun h => ?_, fun h tape => ?_⟩
  · exact ⟨haccepts h, forall_batchEquations_iff h,
      Equation.getElem?_scalars_eq_of_accepts (haccepts h)⟩
  · have hshape (proof) (hproof : proof ∈ proofs) : checkShape table proof = .ok () :=
      (Proof.verify_eq_ok_iff.mp (h proof hproof)).1
    exact (haccepts hshape tape).mpr <|
      Equation.weigh_residuals_eq_zero ((forall_batchEquations_iff hshape).mpr h) _

/-- A proof over neutral bases, a forged one of which the first equation fails, and one without
values. -/
theorem verifyBatch_matches_single_verification_neutral :
    let table := GeneratorTable.neutral Opening 64
    let valid : Proof Opening := ⟨[0], ⟨0, 0⟩, ⟨0, 0⟩, ⟨-18446744073709551615, 0, 0⟩,
      ⟨List.replicate 6 ⟨0, 0⟩, 0, 0, 0⟩⟩
    let forged := { valid with evaluation := { valid.evaluation with blinding := 1 } }
    let empty := { valid with commitments := [] }
    (∀ tape, (verifyBatch .ideal table [valid, valid]).outcome tape = .ok ()) ∧
    (∀ tape, (verifyBatch .ideal table [forged, empty]).outcome tape =
      .error (.rejected .range 0)) ∧
    ∀ tape tape', (∀ i, i ≠ 3 → (tape.scalars 6)[i]? = (tape'.scalars 6)[i]?) →
      (verifyBatch .ideal table [valid, forged]).outcome tape = .ok () →
      (verifyBatch .ideal table [valid, forged]).outcome tape' = .ok () →
        (tape.scalars 6)[3]? = (tape'.scalars 6)[3]? := by
  intro table valid forged empty
  have hshape : ∀ proof ∈ [valid, forged], checkShape table proof = .ok () := by decide +kernel
  have hforged : checkShape table forged = .ok () := hshape forged (by simp)
  have hvalid : ∀ proof ∈ [valid, valid], proof.verify .ideal table = .ok () := by
    decide +kernel
  have hempty : checkShape table empty = .error (.rejected .range 0) := rfl
  refine ⟨(verifyBatch_matches_single_verification .ideal table _).2.2 hvalid, ?_, ?_⟩
  · obtain ⟨before, proof, after, e, hproofs, -, hproof, -, houtcome⟩ :=
      (verifyBatch_matches_single_verification .ideal table [forged, empty]).1
        fun h => by cases hempty.symm.trans (h empty (by simp))
    have hmem : proof ∈ [forged, empty] := hproofs ▸ by simp
    rcases List.mem_pair.mp hmem with rfl | rfl
    · cases hforged.symm.trans hproof
    · rwa [Except.error.inj (hempty.symm.trans hproof)]
  · obtain ⟨-, -, hunique⟩ :=
      (verifyBatch_matches_single_verification .ideal table _).2.1 hshape
    exact hunique 3 (by decide) (by decide +kernel)

end ConfidentialPayment.RangeProof
