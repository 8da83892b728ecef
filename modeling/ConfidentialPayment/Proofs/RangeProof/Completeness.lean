import ConfidentialPayment.Proofs.InnerProduct.Completeness
import ConfidentialPayment.Proofs.Pedersen
import ConfidentialPayment.Proofs.RangeProof.Identity
import ConfidentialPayment.Proofs.Suite.Ideal

/-!
# ConfidentialPayment.Proofs.RangeProof.Completeness

Honest range proofs are accepted, for every number of values.

1. `LinearVectors.HasLength.dot_at`: the opened value is the polynomial at the challenge, and its
   constant term is `delta` plus the weighted values (`Witness.dot_left_right`). So the first
   equation holds (`polynomialEquation_holds`).
2. `Witness.argumentCommitment_eq`: the first move and the challenges give the commitment of the
   two vectors over the rescaled bases, if `y` has an inverse.
3. The padding has zero values without blinding, whose commitments are zero, so prover and verifier
   have the same padded commitments (`commitments_eq_padded`) and the challenges that the prover
   draws are those of the proof (`challenges_of_proveWith`).
-/

namespace ConfidentialPayment.RangeProof

open Scalar

/-! ## Padding -/

/-- A padded list has the padded length. -/
@[simp] theorem length_padded {α : Type} (filler : α) (xs : List α) :
    (padded filler xs).length = pad xs.length := by
  have h := le_pad xs.length
  simp [padded]
  omega

/-- The vectors of a proof have a power of two for their length. -/
theorem vectorLength_eq (count : ℕ) : vectorLength count = 2 ^ roundCount count := by
  rw [vectorLength, roundCount, pad, Nat.pow_add]
  rfl

/-- A proof about no more values than allowed has fewer rounds than the argument allows. -/
theorem roundCount_lt {count : ℕ} (h : count ≤ maxValues) :
    roundCount count < InnerProduct.maxRounds := by
  have hlog : ceilLog2 count ≤ 5 := by
    refine (Nat.pow_le_pow_iff_right (a := 2) (by decide)).mp ?_
    exact pad_le_of_le (k := 5) h
  exact Nat.lt_of_le_of_lt (Nat.add_le_add_left hlog 6) (by decide)

/-! ## Linear vectors -/

/-- All four vectors have the same length. -/
structure LinearVectors.HasLength (v : LinearVectors) (n : ℕ) : Prop where
  left : v.left.length = n
  leftSlope : v.leftSlope.length = n
  right : v.right.length = n
  rightSlope : v.rightSlope.length = n

/-- The left vector keeps its length at every challenge. -/
theorem LinearVectors.HasLength.leftAt {v : LinearVectors} {n : ℕ} (hv : v.HasLength n)
    (x : Scalar) : (v.leftAt x).length = n := by
  simp [LinearVectors.leftAt, hv.left, hv.leftSlope]

/-- The right vector keeps its length at every challenge. -/
theorem LinearVectors.HasLength.rightAt {v : LinearVectors} {n : ℕ} (hv : v.HasLength n)
    (x : Scalar) : (v.rightAt x).length = n := by
  simp [LinearVectors.rightAt, hv.right, hv.rightSlope]

/-- The inner product at a point, by the powers of the point. -/
theorem LinearVectors.HasLength.dot_at {v : LinearVectors} {n : ℕ} (hv : v.HasLength n)
    (x : Scalar) :
    dot (v.leftAt x) (v.rightAt x) =
      dot v.left v.right + x * v.linear + x * x * v.quadratic := by
  have hscale (xs ys : List Scalar) : weigh xs (scale x ys) = x * weigh xs ys :=
    weigh_smul x xs ys
  rw [LinearVectors.leftAt, LinearVectors.rightAt, dot_eq_weigh, addEach, addEach,
    weigh_add_left _ (by simp [hv.left, hv.leftSlope]),
    weigh_add_right _ (by simp [hv.right, hv.rightSlope]),
    weigh_add_right _ (by simp [hv.right, hv.rightSlope]), hscale, hscale, scale, weigh_scale,
    weigh_scale]
  simp only [LinearVectors.linear, LinearVectors.quadratic, dot_eq_weigh, smul_eq_mul]
  ring

/-! ## The commitment of the argument -/

section Argument

variable {P : Type} {table : GeneratorTable P}

theorem length_take_g {n : ℕ} (h : n ≤ table.capacity) : (table.g.take n).length = n :=
  List.length_take.trans (Nat.min_eq_left h)

theorem length_take_h {n : ℕ} (h : n ≤ table.capacity) : (table.h.take n).length = n := by
  rw [List.length_take, table.length_eq]
  exact Nat.min_eq_left h

/-- What a verifier computes, by the bases: the constants of `z` and those that the powers of `y`
rescale. -/
theorem argumentCommitment_eq_sum [Suite P] [LawfulGroup P] {gens : Generators P}
    (c : Challenges) {count : ℕ} (v : VectorCommitment P) (e : Evaluation)
    (h : bitCount * count ≤ table.capacity) :
    argumentCommitment gens table c count v e =
      v.digits + c.x • v.masks - e.vectorBlinding • gens.blinding + (e.value * c.w) • table.u -
        c.z • (table.g.take (bitCount * count)).sum + c.z • (table.h.take (bitCount * count)).sum +
        weigh (digitWeights c.z count)
          (List.zipWith (· • ·) (c.y⁻¹.powers (bitCount * count))
            (table.h.take (bitCount * count))) := by
  have honH : List.zipWith (fun weight power => c.z + weight * power) (digitWeights c.z count)
      (c.y⁻¹.powers (bitCount * count)) =
      (List.zipWith (· * ·) (digitWeights c.z count) (c.y⁻¹.powers (bitCount * count))).map
        (· + c.z) := by
    simp only [List.map_zipWith, add_comm c.z]
  simp only [argumentCommitment, weightedSum_append, weightedSum_zip, weightedSum_cons,
    weightedSum_nil, Scalar.inverse_eq_inv, honH]
  rw [weigh_map_add _ (by simp [length_digitWeights, length_take_h h]), weigh_mul,
    weigh_replicate _ (length_take_g h)]
  module

end Argument

/-- The commitments to values with given blindings, without padding. -/
def valueCommitments {P : Type} [Suite P] (gens : Generators P) (values : List UInt64)
    (blindings : List Scalar) : List P :=
  List.zipWith (fun v b => gens.commitTo .value (.ofUInt64 v) b) values blindings

namespace Witness

variable (w : Witness)

/-! ## The vectors of a witness -/

@[simp] theorem length_digits : w.digits.length = w.vectorLength := by
  simp [digits, vectorLength, RangeProof.vectorLength, List.length_flatMap, mul_comm]

@[simp] theorem length_complements : w.complements.length = w.vectorLength := by
  simp [complements]

/-- A digit is zero or one. -/
theorem mul_sub_one_of_mem_digits {a : Scalar} (h : a ∈ w.digits) : a * (a - 1) = 0 := by
  obtain ⟨v, -, hv⟩ := List.mem_flatMap.mp h
  obtain ⟨k, -, rfl⟩ := List.mem_map.mp hv
  linear_combination ofBit_mul_self (v.toNat.testBit k)

/-- The vectors have one entry for each digit. -/
theorem hasLength_vectors (d : Randomness w.vectorLength) (y z : Scalar) :
    (w.vectors d y z).HasLength w.vectorLength where
  left := by simp [vectors]
  leftSlope := by simp [vectors]
  right := by simp [vectors, length_digitWeights, vectorLength, RangeProof.vectorLength]
  rightSlope := by simp [vectors]

/-- The constant term of the polynomial. -/
theorem dot_left_right (d : Randomness w.vectorLength) (y z : Scalar) :
    dot (w.vectors d y z).left (w.vectors d y z).right =
      delta (y.powers w.vectorLength) z (pad w.values.length) +
        dot (valueWeights z (pad w.values.length)) ((padded 0 w.values).map ofUInt64) := by
  have hdigits : dot w.digits (digitWeights z (pad w.values.length)) =
      dot (valueWeights z (pad w.values.length)) ((padded 0 w.values).map ofUInt64) :=
    dot_digits_scale (by simp)
  rw [vectors, dot_vectors z w.length_digits w.length_complements (length_powers ..)
    (length_digitWeights ..), complements, dot_bitDefects_complements z _ fun a ha =>
    w.mul_sub_one_of_mem_digits ha, hdigits, delta_eq]
  ring

variable {P : Type} [Suite P] [LawfulGroup P] (gens : Generators P)

/-! ## The first equation -/

omit [LawfulGroup P] in
/-- The list of commitments is padded. -/
@[simp] theorem length_commitments : (w.commitments gens).length = pad w.values.length := by
  simp [commitments, w.length_eq]

/-- Weighted commitments to values. -/
theorem weigh_valueCommitments {n : ℕ} {zs bs : List Scalar} {vs : List UInt64}
    (hzs : zs.length = n) (hvs : vs.length = n) (hbs : bs.length = n) :
    weigh zs (valueCommitments gens vs bs) =
      dot zs (vs.map ofUInt64) • gens.value + dot zs bs • gens.blinding := by
  induction n generalizing zs bs vs with
  | zero =>
    obtain rfl := List.eq_nil_of_length_eq_zero hzs
    simp
  | succ n ih =>
    obtain ⟨z, zs, rfl⟩ := List.exists_cons_of_length_eq_add_one hzs
    obtain ⟨v, vs, rfl⟩ := List.exists_cons_of_length_eq_add_one hvs
    obtain ⟨b, bs, rfl⟩ := List.exists_cons_of_length_eq_add_one hbs
    rw [valueCommitments, List.zipWith_cons_cons, weigh_cons, ← valueCommitments,
      ih (Nat.succ.inj hzs) (Nat.succ.inj hvs) (Nat.succ.inj hbs), Generators.commitTo_eq,
      Generators.get, List.map_cons, dot_cons, dot_cons]
    module

/-- Weighed commitments commit to the weighed values and blindings. -/
theorem weigh_commitments (z : Scalar) :
    weigh (valueWeights z (pad w.values.length)) (w.commitments gens) =
      dot (valueWeights z (pad w.values.length)) ((padded 0 w.values).map ofUInt64) • gens.value +
        dot (valueWeights z (pad w.values.length)) (padded 0 w.blindings) • gens.blinding :=
  weigh_valueCommitments gens (length_valueWeights ..) (length_padded ..)
    ((length_padded ..).trans (congrArg pad w.length_eq))

/-- The evaluation of the prover fits its commitments to the coefficients. -/
theorem polynomialEquation_holds (d : Randomness w.vectorLength) (c : Challenges) :
    (polynomialEquation gens c (w.commitments gens)
      (w.commitPolynomial gens d (w.vectors d c.y c.z))
      (w.evaluate d (w.vectors d c.y c.z) c.z c.x)).Holds := by
  have hopened := (w.hasLength_vectors d c.y c.z).dot_at c.x
  rw [dot_left_right] at hopened
  simp only [polynomialEquation, Equation.Holds, length_commitments, weightedSum_append,
    weightedSum_zip, weightedSum_cons, weightedSum_nil, weigh_commitments, evaluate, hopened,
    commitPolynomial, Generators.commitTo_eq, Generators.get]
  rw [show bitCount * pad w.values.length = w.vectorLength from rfl]
  module

/-! ## The second equation -/

/-- The powers of `y` in the right vector cancel against those in the bases. -/
theorem weigh_mulEach_powers {y : Scalar} (hy : y ≠ 0) {n : ℕ} {xs : List Scalar}
    (hxs : xs.length = n) (hs : List P) :
    weigh (mulEach xs (y.powers n)) (List.zipWith (· • ·) (y⁻¹.powers n) hs) = weigh xs hs := by
  have hcancel : List.zipWith (· * ·) (mulEach xs (y.powers n)) (y⁻¹.powers n) = xs := by
    apply List.ext_getElem
    · simp [hxs]
    · intro i hi hi'
      simp [mulEach, hy]
  rw [← weigh_mul, hcancel]

variable (table : GeneratorTable P)

/-- The left vector at a point over its bases. -/
theorem weigh_leftAt (d : Randomness w.vectorLength) (y z x : Scalar) {gs : List P}
    (hgs : gs.length = w.vectorLength) :
    weigh ((w.vectors d y z).leftAt x) gs =
      weigh w.digits gs - z • gs.sum + x • weigh d.leftMasks.toList gs := by
  have hleft : (w.vectors d y z).left = w.digits.map (· + -z) := by
    simp only [vectors, sub_eq_add_neg]
  rw [LinearVectors.leftAt, hleft, addEach, weigh_add_left gs (by simp [vectors]), scale,
    weigh_scale, weigh_map_add _ (by simp [hgs]), neg_smul, ← sub_eq_add_neg]
  rfl

/-- The right vector at a point over the rescaled bases. -/
theorem weigh_rightAt (d : Randomness w.vectorLength) {y : Scalar} (hy : y ≠ 0) (z x : Scalar)
    {hs : List P} (hhs : hs.length = w.vectorLength) :
    weigh ((w.vectors d y z).rightAt x)
        (List.zipWith (· • ·) (y⁻¹.powers w.vectorLength) hs) =
      weigh w.complements hs + z • hs.sum + x • weigh d.rightMasks.toList hs +
        weigh (digitWeights z (pad w.values.length))
          (List.zipWith (· • ·) (y⁻¹.powers w.vectorLength) hs) := by
  have hv := w.hasLength_vectors d y z
  have hdigits : (digitWeights z (pad w.values.length)).length = w.vectorLength :=
    length_digitWeights ..
  have hright : (w.vectors d y z).right = List.zipWith (· + ·)
      (mulEach (w.complements.map (· + z)) (y.powers w.vectorLength))
      (digitWeights z (pad w.values.length)) := by
    rw [mulEach_comm]
    rfl
  rw [LinearVectors.rightAt, addEach, weigh_add_left _ (by simp [hv.right, hv.rightSlope]), scale,
    weigh_scale, hright, weigh_add_left _ (by simp [hdigits]), vectors,
    weigh_mulEach_powers hy (by simp), weigh_mulEach_powers hy (by simp),
    weigh_map_add _ (by simp [hhs])]
  abel

/-- The first move and the challenges give the commitment of the two vectors at the point. -/
theorem argumentCommitment_eq (d : Randomness w.vectorLength) (c : Challenges) (hy : c.y ≠ 0)
    (hcapacity : w.vectorLength ≤ table.capacity) :
    argumentCommitment gens table c (pad w.values.length) (w.commitVectors gens table d)
        (w.evaluate d (w.vectors d c.y c.z) c.z c.x) =
      InnerProduct.Vectors.commitment (c.w • table.u)
        ⟨table.g.take w.vectorLength,
          List.zipWith (· • ·) (c.y⁻¹.powers w.vectorLength) (table.h.take w.vectorLength),
          (w.vectors d c.y c.z).leftAt c.x, (w.vectors d c.y c.z).rightAt c.x⟩ := by
  rw [argumentCommitment_eq_sum c _ _ hcapacity, InnerProduct.commitment_eq]
  simp only [commitVectors, evaluate, weightedSum_append, weightedSum_zip, weightedSum_cons,
    w.weigh_leftAt d c.y c.z c.x (length_take_g hcapacity),
    w.weigh_rightAt d hy c.z c.x (length_take_h hcapacity)]
  rw [show bitCount * pad w.values.length = w.vectorLength from rfl,
    ← weigh_take w.length_digits table.g, ← weigh_take w.length_complements table.h,
    ← weigh_take d.leftMasks.length_toList table.g,
    ← weigh_take d.rightMasks.length_toList table.h, ← dot_eq_weigh]
  module

/-! ## Whole proofs -/

omit [LawfulGroup P] in
/-- There is one commitment for each value. -/
theorem length_valueCommitments :
    (valueCommitments gens w.values w.blindings).length = w.values.length := by
  simp [valueCommitments, w.length_eq]

/-- The padding commits to zero without blinding, so its commitments are zero. -/
theorem commitments_eq_padded :
    w.commitments gens = padded 0 (valueCommitments gens w.values w.blindings) := by
  have hzero : gens.commitTo .value (.ofUInt64 0) 0 = 0 := by
    simp [Generators.commitTo_eq]
  rw [commitments, padded, padded, padded, length_valueCommitments, w.length_eq,
    List.zipWith_append w.length_eq.symm, List.zipWith_replicate', hzero, valueCommitments]

/-- A proof carries the commitments without those of the padding. -/
theorem take_commitments :
    (w.commitments gens).take w.values.length = valueCommitments gens w.values w.blindings := by
  rw [commitments_eq_padded, padded, ← w.length_valueCommitments gens, List.take_left]

end Witness

/-- The challenges of the rounds of a proof's argument. -/
def Proof.roundChallenges {P : Type} [Suite P] (table : GeneratorTable P) (proof : Proof P) :
    List Scalar :=
  proof.argument.roundChallenges (proof.challenges table).2
    (vectorLength proof.commitments.length)

/-- In a suite without zero challenges no challenge of a proof is zero. -/
theorem challenges_ne_zero {P : Type} [Suite P]
    (h : ∀ t label, Suite.challenge P t label ≠ 0) (table : GeneratorTable P) (proof : Proof P) :
    (proof.challenges table).1.y ≠ 0 ∧ ∀ x ∈ proof.roundChallenges table, x ≠ 0 :=
  ⟨h _ _, InnerProduct.drawRounds_ne_zero h _ _⟩

/-- A proof is accepted exactly if its shape is right, both equations hold, and the argument inside
is accepted. -/
theorem Proof.verify_eq_ok_iff {P : Type} [Suite P] {gens : Generators P}
    {table : GeneratorTable P} {proof : Proof P} :
    proof.verify gens table = .ok () ↔ checkShape table proof = .ok () ∧
      (polynomialEquation gens (proof.challenges table).1 (padded 0 proof.commitments)
        proof.polynomial proof.evaluation).Holds ∧
      (commitmentEquation gens table (proof.challenges table).1
        (padded 0 proof.commitments).length proof).Holds ∧
      proof.verifyArgument table (proof.challenges table).1 (proof.challenges table).2 =
        .ok () := by
  rw [verify, check_bind_eq_ok]
  refine and_congr_right' ?_
  rw [check_bind_eq_ok, Equation.checkAll_eq_ok_iff, List.forall_mem_cons,
    List.forall_mem_singleton, and_assoc]

/-- A proof has the right shape if it covers as many values as one proof can, its argument has the
rounds that they need, and the table has the bases. -/
theorem checkShape_eq_ok_iff {P : Type} {table : GeneratorTable P} {proof : Proof P} :
    checkShape table proof = .ok () ↔
      (0 < proof.commitments.length ∧ proof.commitments.length ≤ maxValues ∧
        proof.argument.rounds.length = roundCount proof.commitments.length) ∧
      vectorLength proof.commitments.length ≤ table.capacity := by
  have hwellFormed : proof.isWellFormed = true ↔ 0 < proof.commitments.length ∧
      proof.commitments.length ≤ maxValues ∧
      proof.argument.rounds.length = roundCount proof.commitments.length := by
    simp only [Proof.isWellFormed, InnerProduct.Proof.isWellFormed, Bool.and_eq_true,
      decide_eq_true_eq]
    constructor
    · rintro ⟨⟨⟨hpos, hle⟩, -⟩, hrounds⟩
      exact ⟨hpos, hle, hrounds⟩
    · rintro ⟨hpos, hle, hrounds⟩
      exact ⟨⟨⟨hpos, hle⟩, hrounds ▸ roundCount_lt hle⟩, hrounds⟩
  rw [← hwellFormed]
  by_cases hshape : proof.isWellFormed
  · by_cases hcapacity : vectorLength proof.commitments.length ≤ table.capacity
    · simp [checkShape, hshape, hcapacity]
    · simp [checkShape, hshape, hcapacity, Nat.lt_of_not_le hcapacity]
  · simp [checkShape, hshape]

/-- An accepted proof covers no more values than one proof can. -/
theorem Proof.length_commitments_le {P : Type} [Suite P] {gens : Generators P}
    {table : GeneratorTable P} {proof : Proof P} (h : proof.verify gens table = .ok ()) :
    proof.commitments.length ≤ maxValues :=
  (checkShape_eq_ok_iff.mp (verify_eq_ok_iff.mp h).1).1.2.1

namespace Witness

variable {P : Type} [Suite P] [LawfulGroup P] (gens : Generators P) (table : GeneratorTable P)
  (w : Witness)

/-- The challenges that a prover draws, and the transcript that the argument starts from. -/
def challenges (d : Randomness w.vectorLength) : Challenges × Transcript :=
  let (y, z, t) := drawVectors (openTranscript table (w.commitments gens))
    (w.commitVectors gens table d)
  let (x, t) := drawPolynomial t (w.commitPolynomial gens d (w.vectors d y z))
  let (c, t) := drawEvaluation P t (w.evaluate d (w.vectors d y z) z x)
  (⟨y, z, x, c⟩, t)

omit [LawfulGroup P] in
/-- A proof by the challenges that its prover draws. -/
theorem proveWith_eq (d : Randomness w.vectorLength) :
    w.proveWith gens table d =
      let c := (w.challenges gens table d).1
      let v := w.vectors d c.y c.z
      InnerProduct.Proof.create (w.challenges gens table d).2 (c.w • table.u)
          ⟨table.g.take w.vectorLength,
            List.zipWith (· • ·) (c.y⁻¹.powers w.vectorLength)
              (table.h.take w.vectorLength), v.leftAt c.x, v.rightAt c.x⟩ >>=
        fun (argument, _) => pure ⟨(w.commitments gens).take w.values.length,
          w.commitVectors gens table d, w.commitPolynomial gens d v, w.evaluate d v c.z c.x,
          argument⟩ := rfl

omit [LawfulGroup P] in
/-- The bases and the vectors of the argument have the length that its rounds halve. -/
theorem hasLength_argument (c : Challenges) (d : Randomness w.vectorLength)
    (hcapacity : w.vectorLength ≤ table.capacity) :
    InnerProduct.Vectors.HasLength ⟨table.g.take w.vectorLength,
      List.zipWith (· • ·) (c.y⁻¹.powers w.vectorLength) (table.h.take w.vectorLength),
      (w.vectors d c.y c.z).leftAt c.x, (w.vectors d c.y c.z).rightAt c.x⟩
      (2 ^ roundCount w.values.length) := by
  have hv := w.hasLength_vectors d c.y c.z
  rw [← vectorLength_eq]
  refine ⟨length_take_g hcapacity, ?_, hv.leftAt c.x, hv.rightAt c.x⟩
  rw [List.length_zipWith, length_powers, length_take_h hcapacity, min_self]
  rfl

variable {gens table w} in
/-- The challenges that a prover draws are those of the proof. -/
theorem challenges_of_proveWith {d : Randomness w.vectorLength} {proof : Proof P}
    (h : w.proveWith gens table d = .ok proof) :
    proof.challenges table = w.challenges gens table d := by
  have hpadded : padded 0 ((w.commitments gens).take w.values.length) = w.commitments gens := by
    rw [take_commitments, commitments_eq_padded]
  rw [proveWith_eq] at h
  obtain ⟨⟨argument, t⟩, -, hproof⟩ := bind_eq_ok.mp h
  rw [← pure_eq_ok.mp hproof, Proof.challenges, hpadded]
  rfl

/-- Every choice of draws makes a proof if the table is large enough, and its proof is accepted
unless a challenge is zero. -/
theorem exists_proveWith (d : Randomness w.vectorLength)
    (hcapacity : w.vectorLength ≤ table.capacity) :
    ∃ proof, w.proveWith gens table d = .ok proof ∧
      proof.commitments = valueCommitments gens w.values w.blindings ∧
      ((proof.challenges table).1.y ≠ 0 → (∀ x ∈ proof.roundChallenges table, x ≠ 0) →
        proof.verify gens table = .ok ()) := by
  let c := (w.challenges gens table d).1
  let v := w.vectors d c.y c.z
  have hlen : w.vectorLength = 2 ^ roundCount w.values.length := vectorLength_eq _
  have hh : (table.h.take w.vectorLength).length = w.vectorLength := length_take_h hcapacity
  have hfactors : (c.y⁻¹.powers w.vectorLength).length = 2 ^ roundCount w.values.length :=
    (length_powers ..).trans hlen
  obtain ⟨argument, t, hcreate, hcommitment, hrounds, hverify⟩ :=
    InnerProduct.exists_verify_create (u := c.w • table.u) (roundCount_lt w.length_le)
      (w.challenges gens table d).2 (hh.trans hlen) hfactors
      (w.hasLength_argument table c d hcapacity)
  let proof : Proof P := ⟨(w.commitments gens).take w.values.length, w.commitVectors gens table d,
    w.commitPolynomial gens d v, w.evaluate d v c.z c.x, argument⟩
  have hproof : w.proveWith gens table d = .ok proof := by
    rw [proveWith_eq]
    exact congrArg (· >>= _) hcreate
  have hcommitments : proof.commitments = valueCommitments gens w.values w.blindings :=
    w.take_commitments gens
  refine ⟨proof, hproof, hcommitments, fun hy hxs => ?_⟩
  have hchallenges := challenges_of_proveWith hproof
  have hpadded : padded 0 proof.commitments = w.commitments gens := by
    rw [hcommitments, commitments_eq_padded]
  have hcount : proof.commitments.length = w.values.length := by
    rw [hcommitments, length_valueCommitments]
  rw [Proof.roundChallenges, hchallenges, hcount, vectorLength_eq] at hxs
  rw [hchallenges] at hy
  rw [Proof.verify_eq_ok_iff, hchallenges, hpadded, length_commitments]
  refine ⟨checkShape_eq_ok_iff.mpr ?shape, w.polynomialEquation_holds gens d c, ?commitment,
    ?argument⟩
  case shape =>
    rw [hcount]
    exact ⟨⟨List.length_pos_iff.mpr w.values_ne_nil, w.length_le, hrounds⟩, hcapacity⟩
  case commitment =>
    exact (w.argumentCommitment_eq gens table d c hy hcapacity).trans hcommitment.symm
  case argument =>
    simp only [Proof.verifyArgument, hcount, Scalar.inverse_eq_inv]
    rw [show RangeProof.vectorLength w.values.length = w.vectorLength from rfl, hverify hxs]

omit [Suite P] [LawfulGroup P] in
/-- A witness may be proved if the table has generators for all its digits, padded. -/
theorem checkCapacity_eq_ok_iff :
    w.checkCapacity table = .ok () ↔ w.vectorLength ≤ table.capacity := by
  unfold checkCapacity
  split <;> simp_all

omit [LawfulGroup P] in
/-- Every choice of draws makes a well-formed proof if the table is large enough. -/
theorem exists_proveWith_isWellFormed (d : Randomness w.vectorLength)
    (hcapacity : w.vectorLength ≤ table.capacity) :
    ∃ proof, w.proveWith gens table d = .ok proof ∧ proof.isWellFormed = true := by
  have hvectors := w.hasLength_argument table (w.challenges gens table d).1 d hcapacity
  obtain ⟨argument, t, hcreate, -⟩ := InnerProduct.exists_create
    (u := (w.challenges gens table d).1.w • table.u) (w.challenges gens table d).2 hvectors
  rw [proveWith_eq]
  refine ⟨_, congrArg (· >>= _) hcreate, ?_⟩
  have hcount := InnerProduct.length_rounds_of_create hvectors.g hcreate
  have hcommitments : ((w.commitments gens).take w.values.length).length = w.values.length := by
    rw [List.length_take, length_commitments, Nat.min_eq_left (le_pad _)]
  have hpos := List.length_pos_iff.mpr w.values_ne_nil
  simp only [Proof.isWellFormed, InnerProduct.Proof.isWellFormed, hcommitments, hcount,
    Bool.and_eq_true, decide_eq_true_eq]
  exact ⟨⟨⟨hpos, w.length_le⟩, roundCount_lt w.length_le⟩, trivial⟩

omit [LawfulGroup P] in
/-- If the table is large enough, proving succeeds on every tape and gives a proof of the right
shape. -/
theorem prove_ensures_isWellFormed (hcapacity : w.vectorLength ≤ table.capacity) :
    (w.prove gens table).Ensures fun proof => proof.isWellFormed = true := by
  refine .ofExcept_bind ((checkCapacity_eq_ok_iff table w).mpr hcapacity) ?_
  refine .lift_bind fun d => ?_
  obtain ⟨proof, hproof, h⟩ := w.exists_proveWith_isWellFormed gens table d hcapacity
  exact .ofExcept hproof h

variable {gens table w} in
omit [LawfulGroup P] in
/-- What the prover returns has the shape that verifiers ask for. -/
theorem isWellFormed_of_prove {proof : Proof P} {tape rest : RandomSource}
    (h : (w.prove gens table).Gives tape proof rest) : proof.isWellFormed = true := by
  obtain ⟨⟨⟩, _, hcheck, -⟩ := DrawExcept.gives_bind.mp h
  have hcapacity := (checkCapacity_eq_ok_iff table w).mp (DrawExcept.gives_ofExcept.mp hcheck).1
  exact (w.prove_ensures_isWellFormed gens table hcapacity).of_gives h

/-- Proving succeeds on every tape if the table is large enough. -/
theorem prove_ensures (hcapacity : w.vectorLength ≤ table.capacity) :
    (w.prove gens table).Ensures fun proof =>
      proof.commitments = valueCommitments gens w.values w.blindings ∧
      ((proof.challenges table).1.y ≠ 0 → (∀ x ∈ proof.roundChallenges table, x ≠ 0) →
        proof.verify gens table = .ok ()) := by
  refine .ofExcept_bind ((checkCapacity_eq_ok_iff table w).mpr hcapacity) ?_
  refine .lift_bind fun d => ?_
  obtain ⟨proof, hproof, h⟩ := w.exists_proveWith gens table d hcapacity
  exact .ofExcept hproof h

omit [Suite P] [LawfulGroup P] in
/-- A witness that is made consists of what it is made from. -/
theorem make_eq_ok {values : List UInt64} {blindings : List Scalar}
    (h : make values blindings = .ok w) : w.values = values ∧ w.blindings = blindings := by
  unfold make at h
  split_ifs at h
  cases h
  exact ⟨rfl, rfl⟩

omit w in
/-- As many positive values as one proof covers make a witness with blindings for all of them. -/
theorem exists_make {values : List UInt64} {blindings : List Scalar}
    (hlength : blindings.length = values.length) (hne : values ≠ [])
    (hcount : values.length ≤ maxValues) (hpositive : ∀ v ∈ values, v ≠ 0) :
    ∃ w, make values blindings = .ok w := by
  have hall : values.all (· != 0) = true := by simpa using hpositive
  unfold make
  rw [dif_pos hlength, dif_pos hne, dif_pos hcount, dif_pos hall]
  exact ⟨_, rfl⟩

/-- Completeness: for values and blindings that make a witness, proving succeeds on a tape exactly
if the table has a base for each digit of the padded values; the proof has the commitments of the
values in their order, and it is accepted over the same table unless a challenge is zero. -/
theorem prove_succeeds_and_verifies {values : List UInt64} {blindings : List Scalar}
    (hw : make values blindings = .ok w) (tape : RandomSource) :
    ((∃ proof rest, (w.prove gens table).Gives tape proof rest) ↔
      bitCount * pad values.length ≤ table.capacity) ∧
    ∀ proof rest, (w.prove gens table).Gives tape proof rest →
      proof.commitments = valueCommitments gens values blindings ∧
      ((proof.challenges table).1.y ≠ 0 → (∀ x ∈ proof.roundChallenges table, x ≠ 0) →
        proof.verify gens table = .ok ()) := by
  obtain ⟨rfl, rfl⟩ := w.make_eq_ok hw
  have hneeds {proof : Proof P} {rest : RandomSource}
      (h : (w.prove gens table).Gives tape proof rest) : w.vectorLength ≤ table.capacity := by
    obtain ⟨_, _, hcheck, -⟩ := DrawExcept.gives_bind.mp h
    exact (checkCapacity_eq_ok_iff table w).mp (DrawExcept.gives_ofExcept.mp hcheck).1
  refine ⟨⟨fun ⟨_, _, h⟩ => hneeds h, fun hcapacity => ?_⟩, fun proof rest h => ?_⟩
  · obtain ⟨proof, rest, h, -⟩ := w.prove_ensures gens table hcapacity tape
    exact ⟨proof, rest, h⟩
  · exact (w.prove_ensures gens table (hneeds h)).of_gives h

/-- Three values, the largest one among them, over a table that the padding to four fills. -/
theorem prove_succeeds_and_verifies_three :
    let values : List UInt64 := [5, 18446744073709551615, 1]
    let table := GeneratorTable.neutral Opening 256
    ∃ w, make values [1, 2, 3] = .ok w ∧
      ∃ proof rest, (w.prove .ideal table).Gives (.ofCycle []) proof rest ∧
        proof.commitments = [⟨0, 5, 0, 0, 1⟩, ⟨0, 18446744073709551615, 0, 0, 2⟩, ⟨0, 1, 0, 0, 3⟩] ∧
        proof.verify .ideal table = .ok () := by
  intro values table
  obtain ⟨w, hw⟩ : ∃ w, make values [1, 2, 3] = .ok w := ⟨_, rfl⟩
  obtain ⟨hsucceeds, hproofs⟩ := prove_succeeds_and_verifies .ideal table w hw (.ofCycle [])
  obtain ⟨proof, rest, hrun⟩ := hsucceeds.mpr (by simp [table]; decide)
  obtain ⟨hcommitments, hverify⟩ := hproofs proof rest hrun
  obtain ⟨hy, hxs⟩ := challenges_ne_zero (fun _ _ => one_ne_zero) table proof
  exact ⟨w, hw, proof, rest, hrun, hcommitments.trans (by decide +kernel), hverify hy hxs⟩

end Witness

end ConfidentialPayment.RangeProof
