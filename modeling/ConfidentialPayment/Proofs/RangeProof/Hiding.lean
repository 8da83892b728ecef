import ConfidentialPayment.Proofs.RangeProof.Completeness

/-!
# ConfidentialPayment.Proofs.RangeProof.Hiding

Range proofs hide the values perfectly.

When all points are multiples of the blinding generator, a commitment is a single multiple of it,
and another witness with the same commitments can give the same proof. `shift` says with which
draws: the masks make up for the digits, so that the opened vectors are the same (`leftAt_shift`,
`rightAt_shift`), and the blindings make up for what the digits, the masks and the coefficients of
the polynomial change by (`commitVectors_shift`, `evaluate_shift`, `commitPolynomial_shift`).

The shift depends on challenges that themselves depend on the draws. It keeps every move, so it
keeps the challenges (`challenges_shift`); therefore shifting back undoes it, and the draws
correspond one to one.
-/

namespace ConfidentialPayment.RangeProof

open Scalar

attribute [ext] Randomness VectorCommitment PolynomialCommitment Evaluation

namespace Witness

variable {P : Type}

/-! ## Shifts -/

/-- What the digits of a witness have over those of another one. -/
def digitDifference (w w' : Witness) : List Scalar := List.zipWith (· - ·) w.digits w'.digits

/-- Exchanging the witnesses changes the sign of the difference. -/
theorem digitDifference_swap (w w' : Witness) :
    w'.digitDifference w = (w.digitDifference w').map (-·) := by
  rw [digitDifference, digitDifference, List.zipWith_comm, List.map_zipWith]
  simp only [neg_sub]

/-- Exchanging the witnesses changes the sign of a weighed difference. -/
theorem dot_digitDifference_swap (w w' : Witness) (xs : List Scalar) :
    dot (w'.digitDifference w) xs = -dot (w.digitDifference w') xs := by
  rw [digitDifference_swap, dot_eq_weigh, weigh_neg, dot_eq_weigh]

/-- Their complements differ by the same. -/
theorem complements_difference (w w' : Witness) :
    List.zipWith (· - ·) w.complements w'.complements = w.digitDifference w' := by
  simp only [complements, List.zipWith_map, sub_sub_sub_cancel_right, digitDifference]

/-- Draws with other masks, which take up the difference of the digits at the challenge `x`, and
with the blindings that the digits and the masks have then; `log` says which multiple of the
blinding generator a point is. -/
def shiftMasks (table : GeneratorTable P) (log : P → Scalar) (w w' : Witness) (x : Scalar)
    (d : Randomness w.vectorLength) : Randomness w'.vectorLength :=
  let difference := w.digitDifference w'
  let moved := dot difference (table.g.map log) + dot difference (table.h.map log)
  let shifted (masks : Vector Scalar w.vectorLength) : Vector Scalar w'.vectorLength :=
    vectorOfList w'.vectorLength (addEach masks.toList (scale x⁻¹ difference))
  { digitBlinding := d.digitBlinding + moved
    leftMasks := shifted d.leftMasks
    rightMasks := shifted d.rightMasks
    maskBlinding := d.maskBlinding - x⁻¹ * moved
    linearBlinding := d.linearBlinding
    quadraticBlinding := d.quadraticBlinding }

/-- The draws with which another witness answers the challenges like the first one does with `d`.
One blinding takes up the change of the coefficient that it blinds, and the other one is what the
opening of the polynomial leaves for it. -/
def shift (gens : Generators P) (table : GeneratorTable P) (log : P → Scalar) (w w' : Witness)
    (c : Challenges) (d : Randomness w.vectorLength) : Randomness w'.vectorLength :=
  let d' := shiftMasks table log w w' c.x d
  let v := w.vectors d c.y c.z
  let quadraticBlinding := d.quadraticBlinding +
    (v.quadratic - (w'.vectors d' c.y c.z).quadratic) * log gens.value
  let opening := (w.evaluate d v c.z c.x).blinding - quadraticBlinding * c.x * c.x -
    dot (valueWeights c.z (pad w'.values.length)) (padded 0 w'.blindings)
  { d' with quadraticBlinding, linearBlinding := c.x⁻¹ * opening }

variable {gens : Generators P} {table : GeneratorTable P} {log : P → Scalar} {w w' : Witness}

/-- The vectors look at the masks only. -/
theorem vectors_congr (w : Witness) {d d' : Randomness w.vectorLength}
    (hleft : d.leftMasks = d'.leftMasks) (hright : d.rightMasks = d'.rightMasks) (y z : Scalar) :
    w.vectors d y z = w.vectors d' y z := by
  rw [vectors, vectors, hleft, hright]

/-- The shift of the quadratic blinding makes up for the difference of the quadratic
coefficients. -/
theorem quadraticBlinding_shift (c : Challenges) (d : Randomness w.vectorLength) :
    (shift gens table log w w' c d).quadraticBlinding = d.quadraticBlinding +
      ((w.vectors d c.y c.z).quadratic -
        (w'.vectors (shift gens table log w w' c d) c.y c.z).quadratic) * log gens.value := rfl

/-- The shift of the linear blinding keeps the blinding of the evaluation. -/
theorem linearBlinding_shift (c : Challenges) (d : Randomness w.vectorLength) :
    (shift gens table log w w' c d).linearBlinding =
      c.x⁻¹ * ((w.evaluate d (w.vectors d c.y c.z) c.z c.x).blinding -
        (shift gens table log w w' c d).quadraticBlinding * c.x * c.x -
          dot (valueWeights c.z (pad w'.values.length)) (padded 0 w'.blindings)) := rfl

section Vectors

variable (hlength : w.values.length = w'.values.length)
include hlength

/-- Witnesses for as many values have vectors of one length. -/
theorem vectorLength_congr : w.vectorLength = w'.vectorLength :=
  congrArg RangeProof.vectorLength hlength

/-- There is a difference for every digit. -/
theorem length_digitDifference : (w.digitDifference w').length = w'.vectorLength := by
  simp [digitDifference, vectorLength_congr hlength]

/-- The shift of the left masks makes up for the difference of the digits. -/
theorem toList_leftMasks_shift (c : Challenges) (d : Randomness w.vectorLength) :
    (shift gens table log w w' c d).leftMasks.toList =
      addEach d.leftMasks.toList (scale c.x⁻¹ (w.digitDifference w')) :=
  toList_vectorOfList (by simp [length_digitDifference hlength, vectorLength_congr hlength])

/-- The shift of the right masks makes up for the same difference. -/
theorem toList_rightMasks_shift (c : Challenges) (d : Randomness w.vectorLength) :
    (shift gens table log w w' c d).rightMasks.toList =
      addEach d.rightMasks.toList (scale c.x⁻¹ (w.digitDifference w')) :=
  toList_vectorOfList (by simp [length_digitDifference hlength, vectorLength_congr hlength])

/-- Shifted masks make up for the difference of the digits. -/
theorem leftAt_shift {c : Challenges} (hx : c.x ≠ 0) (d : Randomness w.vectorLength) :
    (w'.vectors (shift gens table log w w' c d) c.y c.z).leftAt c.x =
      (w.vectors d c.y c.z).leftAt c.x := by
  apply List.ext_getElem
  · rw [(w'.hasLength_vectors ..).leftAt, (w.hasLength_vectors ..).leftAt,
      vectorLength_congr hlength]
  · intro i hi hi'
    simp only [LinearVectors.leftAt, vectors, toList_leftMasks_shift hlength, digitDifference,
      addEach, scale, List.getElem_zipWith, List.getElem_map]
    field_simp
    ring

/-- At the challenge the right vectors are the same. -/
theorem rightAt_shift {c : Challenges} (hx : c.x ≠ 0) (d : Randomness w.vectorLength) :
    (w'.vectors (shift gens table log w w' c d) c.y c.z).rightAt c.x =
      (w.vectors d c.y c.z).rightAt c.x := by
  apply List.ext_getElem
  · rw [(w'.hasLength_vectors ..).rightAt, (w.hasLength_vectors ..).rightAt,
      vectorLength_congr hlength]
  · intro i hi hi'
    simp only [LinearVectors.rightAt, vectors, toList_rightMasks_shift hlength, digitDifference,
      complements, addEach, mulEach, scale, List.getElem_zipWith, List.getElem_map,
      getElem_powers, hlength]
    field_simp
    ring

/-- The opened evaluation stays the same. -/
theorem evaluate_shift {c : Challenges} (hx : c.x ≠ 0) (d : Randomness w.vectorLength) :
    w'.evaluate (shift gens table log w w' c d)
        (w'.vectors (shift gens table log w w' c d) c.y c.z) c.z c.x =
      w.evaluate d (w.vectors d c.y c.z) c.z c.x := by
  refine Evaluation.ext ?value ?blinding ?vectorBlinding
  case value =>
    simp only [evaluate, leftAt_shift hlength hx, rightAt_shift hlength hx]
  case blinding =>
    simp only [evaluate, shift]
    field_simp
    ring
  case vectorBlinding =>
    simp only [evaluate, shift, shiftMasks]
    field_simp
    ring

/-- Masks that have taken up a difference give it back. -/
theorem addEach_digitDifference_swap (a : Scalar) {masks : List Scalar}
    (h : masks.length = w.vectorLength) :
    addEach (addEach masks (scale a (w.digitDifference w'))) (scale a (w'.digitDifference w)) =
      masks := by
  apply List.ext_getElem
  · simp [h, length_digitDifference hlength, length_digitDifference hlength.symm,
      vectorLength_congr hlength]
  · intro i hi hi'
    simp only [digitDifference, addEach, scale, List.getElem_zipWith, List.getElem_map]
    ring

/-- Shifting back undoes a shift. -/
theorem shift_shift {c : Challenges} (hx : c.x ≠ 0) (d : Randomness w.vectorLength) :
    shift gens table log w' w c (shift gens table log w w' c d) = d := by
  set d' := shift gens table log w w' c d with hd'
  set d'' := shift gens table log w' w c d' with hd''
  have hleft : d''.leftMasks = d.leftMasks := by
    refine Vector.toList_inj.mp ?_
    rw [hd'', toList_leftMasks_shift hlength.symm, hd', toList_leftMasks_shift hlength,
      addEach_digitDifference_swap hlength _ d.leftMasks.length_toList]
  have hright : d''.rightMasks = d.rightMasks := by
    refine Vector.toList_inj.mp ?_
    rw [hd'', toList_rightMasks_shift hlength.symm, hd', toList_rightMasks_shift hlength,
      addEach_digitDifference_swap hlength _ d.rightMasks.length_toList]
  have hquadratic : d''.quadraticBlinding = d.quadraticBlinding := by
    rw [hd'', quadraticBlinding_shift, ← hd'', w.vectors_congr hleft hright, hd',
      quadraticBlinding_shift]
    ring
  refine Randomness.ext ?digits hleft hright ?masks ?linear hquadratic
  case digits | masks =>
    simp only [hd'', hd', shift, shiftMasks, w.dot_digitDifference_swap w']
    ring
  case linear =>
    rw [hd'', linearBlinding_shift, ← hd'', hquadratic, hd', evaluate_shift hlength hx]
    simp only [evaluate]
    field_simp
    ring

end Vectors

/-! ## Moves -/

variable [Suite P]

section Moves

variable [LawfulGroup P] (hlog : ∀ p, log p • gens.blinding = p)
include hlog

/-- Points that are known by their logarithms are weighed by weighing these. -/
theorem dot_log_smul (xs : List Scalar) (ps : List P) :
    dot xs (ps.map log) • gens.blinding = weigh xs ps := by
  induction xs generalizing ps with
  | nil => simp
  | cons x xs ih =>
    cases ps with
    | nil => simp [dot_comm _ []]
    | cons p ps => rw [List.map_cons, dot_cons, add_smul, mul_smul, hlog, ih, weigh_cons]

variable (hlength : w.values.length = w'.values.length)
include hlength

/-- The first move stays the same. -/
theorem commitVectors_shift (c : Challenges) (d : Randomness w.vectorLength) :
    w'.commitVectors gens table (shift gens table log w w' c d) =
      w.commitVectors gens table d := by
  have hdigits (ps : List P) : weigh (w.digitDifference w') ps =
      weigh w.digits ps - weigh w'.digits ps :=
    weigh_sub_left ps (by simp [vectorLength_congr hlength])
  have hcomplements (ps : List P) : weigh (w.digitDifference w') ps =
      weigh w.complements ps - weigh w'.complements ps := by
    rw [← complements_difference]
    exact weigh_sub_left ps (by simp [vectorLength_congr hlength])
  have hmasks (masks : Vector Scalar w.vectorLength) (ps : List P) :
      weigh (addEach masks.toList (scale c.x⁻¹ (w.digitDifference w'))) ps =
        weigh masks.toList ps + c.x⁻¹ • weigh (w.digitDifference w') ps := by
    rw [addEach, scale, weigh_add_left ps (by simp [length_digitDifference hlength,
      vectorLength_congr hlength]), weigh_scale]
  refine VectorCommitment.ext ?digits ?masks
  case digits =>
    simp only [commitVectors, weightedSum_cons, weightedSum_append, weightedSum_zip, shift,
      shiftMasks, add_smul, dot_log_smul hlog]
    rw [hdigits table.g, hcomplements table.h]
    abel
  case masks =>
    simp only [commitVectors, weightedSum_cons, weightedSum_append, weightedSum_zip,
      toList_leftMasks_shift hlength, toList_rightMasks_shift hlength, hmasks]
    simp only [shift, shiftMasks, sub_smul, mul_smul, add_smul, dot_log_smul hlog]
    module

/-- The second move stays the same. -/
theorem commitPolynomial_shift (hcommitments : w.commitments gens = w'.commitments gens)
    {c : Challenges} (hx : c.x ≠ 0) (d : Randomness w.vectorLength) :
    w'.commitPolynomial gens (shift gens table log w w' c d)
        (w'.vectors (shift gens table log w w' c d) c.y c.z) =
      w.commitPolynomial gens d (w.vectors d c.y c.z) := by
  set d' := shift gens table log w w' c d
  have hquadratic : (w'.commitPolynomial gens d' (w'.vectors d' c.y c.z)).quadratic =
      (w.commitPolynomial gens d (w.vectors d c.y c.z)).quadratic := by
    have hvalue : log gens.value • gens.blinding = gens.get .value := hlog _
    simp only [commitPolynomial, d', quadraticBlinding_shift, gens.commitTo_shift hvalue]
  refine PolynomialCommitment.ext ?_ hquadratic
  have h := w.polynomialEquation_holds gens d c
  have h' := w'.polynomialEquation_holds gens d' c
  rw [evaluate_shift hlength hx, ← hcommitments] at h'
  simp only [polynomialEquation, Equation.Holds, weightedSum_append, weightedSum_zip,
    weightedSum_cons, weightedSum_nil, hquadratic] at h h'
  -- The equations agree in all terms but those of the linear coefficients.
  have hlinear : c.x • (w'.commitPolynomial gens d' (w'.vectors d' c.y c.z)).linear =
      c.x • (w.commitPolynomial gens d (w.vectors d c.y c.z)).linear := by
    simpa only [add_right_inj, add_left_inj] using h'.trans h.symm
  exact smul_right_injective P hx hlinear

end Moves

/-! ## Challenges and proofs -/

/-- The challenges depend on the moves only. -/
theorem challenges_congr {d : Randomness w.vectorLength} {d' : Randomness w'.vectorLength}
    {c : Challenges} (hc : (w.challenges gens table d).1 = c)
    (hcommitments : w.commitments gens = w'.commitments gens)
    (hvectors : w'.commitVectors gens table d' = w.commitVectors gens table d)
    (hpolynomial : w'.commitPolynomial gens d' (w'.vectors d' c.y c.z) =
      w.commitPolynomial gens d (w.vectors d c.y c.z))
    (hevaluation : w'.evaluate d' (w'.vectors d' c.y c.z) c.z c.x =
      w.evaluate d (w.vectors d c.y c.z) c.z c.x) :
    w'.challenges gens table d' = w.challenges gens table d := by
  subst hc
  simp only [challenges] at hpolynomial hevaluation ⊢
  rw [hvectors, ← hcommitments]
  simp only [hpolynomial, hevaluation]

variable [LawfulGroup P]

section Shifted

variable (hlog : ∀ p, log p • gens.blinding = p) (hlength : w.values.length = w'.values.length)
  (hcommitments : w.commitments gens = w'.commitments gens) {d : Randomness w.vectorLength}
  {c : Challenges} (hc : (w.challenges gens table d).1 = c) (hx : c.x ≠ 0)
include hlog hlength hcommitments hc hx

/-- Another witness draws the same challenges with the shifted draws. -/
theorem challenges_shift :
    w'.challenges gens table (shift gens table log w w' c d) = w.challenges gens table d :=
  challenges_congr hc hcommitments (commitVectors_shift hlog hlength c d)
    (commitPolynomial_shift hlog hlength hcommitments hx d) (evaluate_shift hlength hx d)

/-- Another witness makes the same proof with the shifted draws. -/
theorem proveWith_shift :
    w'.proveWith gens table (shift gens table log w w' c d) = w.proveWith gens table d := by
  rw [proveWith_eq, proveWith_eq, challenges_shift hlog hlength hcommitments hc hx]
  subst hc
  simp only [leftAt_shift hlength hx, rightAt_shift hlength hx, evaluate_shift hlength hx,
    commitVectors_shift hlog hlength, commitPolynomial_shift hlog hlength hcommitments hx,
    vectorLength_congr hlength, hcommitments, hlength]

end Shifted

/-! ## Equal proofs -/

/-- The draws for which the challenges `y` and `x` of a prover are not zero. -/
def UsableDraws (gens : Generators P) (table : GeneratorTable P) (w : Witness) : Type :=
  {d : Randomness w.vectorLength //
    (w.challenges gens table d).1.y ≠ 0 ∧ (w.challenges gens table d).1.x ≠ 0}

omit [LawfulGroup P] in
/-- Equal commitments are as many on both sides, and so are those of the padding. -/
theorem length_values_congr (h : valueCommitments gens w.values w.blindings =
    valueCommitments gens w'.values w'.blindings) : w.values.length = w'.values.length := by
  rw [← w.length_valueCommitments gens, h, w'.length_valueCommitments gens]

/-- Perfect hiding: if all points are multiples of the blinding generator, then two witnesses with
the same commitments make the same proofs, draw for draw, where the challenges `y` and `x` are not
zero. These are the challenges of the proof, which there is if the table is large enough. -/
theorem exists_equiv_usableDraws (table : GeneratorTable P)
    (hgens : Function.Surjective fun a : Scalar => a • gens.blinding)
    (h : valueCommitments gens w.values w.blindings =
      valueCommitments gens w'.values w'.blindings) :
    ∃ φ : UsableDraws gens table w ≃ UsableDraws gens table w',
      ∀ d : UsableDraws gens table w,
        w.proveWith gens table d.1 = w'.proveWith gens table (φ d).1 ∧
        (w.vectorLength ≤ table.capacity → ∃ proof, w.proveWith gens table d.1 = .ok proof ∧
          proof.challenges table = w.challenges gens table d.1) := by
  obtain ⟨log, hlog⟩ := hgens.hasRightInverse
  have hlength := length_values_congr h
  have hcommitments : w.commitments gens = w'.commitments gens := by
    rw [commitments_eq_padded, commitments_eq_padded, h]
  let move (w w' : Witness) (d : Randomness w.vectorLength) : Randomness w'.vectorLength :=
    shift gens table log w w' (w.challenges gens table d).1 d
  have hmove (d : UsableDraws gens table w) :
      w'.challenges gens table (move w w' d.1) = w.challenges gens table d.1 :=
    challenges_shift hlog hlength hcommitments rfl d.2.2
  have hmove' (d : UsableDraws gens table w') :
      w.challenges gens table (move w' w d.1) = w'.challenges gens table d.1 :=
    challenges_shift hlog hlength.symm hcommitments.symm rfl d.2.2
  let φ : UsableDraws gens table w ≃ UsableDraws gens table w' :=
    { toFun := fun d => ⟨move w w' d.1, hmove d ▸ d.2⟩
      invFun := fun d => ⟨move w' w d.1, hmove' d ▸ d.2⟩
      left_inv := fun d => Subtype.ext <| by
        simp only [move, hmove d]
        exact shift_shift hlength d.2.2 d.1
      right_inv := fun d => Subtype.ext <| by
        simp only [move, hmove' d]
        exact shift_shift hlength.symm d.2.2 d.1 }
  refine ⟨φ, fun d => ⟨?_, fun hcapacity => ?_⟩⟩
  · exact (proveWith_shift hlog hlength hcommitments rfl d.2.2).symm
  · obtain ⟨proof, hproof, -⟩ := w.exists_proveWith gens table d.1 hcapacity
    exact ⟨proof, hproof, challenges_of_proveWith hproof⟩

/-- On the line every proof that the value 5 makes is also made by the value 2, blinded by 3
more. -/
theorem exists_equiv_usableDraws_line :
    let unit : Coordinates Unit := fun _ => 1
    let table : GeneratorTable (Coordinates Unit) :=
      ⟨List.replicate 64 unit, List.replicate 64 unit, unit, rfl⟩
    let w : Witness := ⟨[5], [1], rfl, by simp, by decide, by simp⟩
    let w' : Witness := ⟨[2], [4], rfl, by simp, by decide, by simp⟩
    ∀ d : Randomness w.vectorLength, ∃ d' : Randomness w'.vectorLength, ∃ proof,
      w.proveWith .line table d = .ok proof ∧ w'.proveWith .line table d' = .ok proof := by
  intro unit table w w' d
  have hpoint : Generators.line.commitTo .value (.ofUInt64 5) 1 =
      Generators.line.commitTo .value (.ofUInt64 2) 4 := by
    rw [Generators.commitTo_eq, Generators.commitTo_eq]
    change ofUInt64 5 • unit + (1 : Scalar) • unit = ofUInt64 2 • unit + (4 : Scalar) • unit
    rw [← add_smul, ← add_smul]
    exact congrArg (· • unit) (by decide)
  have h : valueCommitments .line w.values w.blindings =
      valueCommitments .line w'.values w'.blindings := congrArg (fun p => [p]) hpoint
  obtain ⟨φ, hφ⟩ := exists_equiv_usableDraws table Generators.bijective_line.surjective h
  let usable : UsableDraws .line table w := ⟨d, one_ne_zero, one_ne_zero⟩
  obtain ⟨hequal, hexists⟩ := hφ usable
  obtain ⟨proof, hproof, -⟩ := hexists (by decide)
  exact ⟨(φ usable).1, proof, hproof, hequal.symm.trans hproof⟩

end Witness

end ConfidentialPayment.RangeProof
