import Mathlib.Algebra.Module.Basic
import ConfidentialPayment.InnerProduct
import ConfidentialPayment.PowerOfTwo
import ConfidentialPayment.Proofs.Runs
import ConfidentialPayment.Proofs.Scalar.Vector
import ConfidentialPayment.Proofs.Suite.Ideal

/-!
# ConfidentialPayment.Proofs.InnerProduct.Completeness

Honest inner product arguments are accepted.

1. One round: joining the halves changes the commitment by the cross terms, weighted with the
   square of the challenge and of its inverse (`commitment_fold`).
2. The weights of a verifier join the bases like the rounds of the prover do
   (`weigh_foldWeights_cons`), so they give the last bases without computing the ones between.
3. `Unfolds` is the equation that a verifier checks: the last commitment is the first one with all
   cross terms. A round keeps it (`Unfolds.cons`), so a whole run has it (`unfolds_proveRounds`).
4. `drawRounds_proveRounds`: by the same induction, prover and verifier end with one transcript.
-/

namespace ConfidentialPayment.InnerProduct

/-! ## Joining halves -/

section Halves

variable {M : Type} [AddCommGroup M] [Module Scalar M] {x y : Scalar}

/-- The sum over joined halves: the sum over the whole lists and the two cross terms. -/
theorem weigh_joined (hxy : x * y = 1) {n : ℕ} {as : List Scalar} {gs : List M}
    (has : as.length = n + n) (hgs : gs.length = n + n) :
    weigh (List.zipWith (fun lower upper => lower * x + y * upper) (as.take n) (as.drop n))
        (List.zipWith (fun lower upper => y • lower + x • upper) (gs.take n) (gs.drop n)) =
      weigh as gs + (x * x) • weigh (as.take n) (gs.drop n) +
        (y * y) • weigh (as.drop n) (gs.take n) := by
  have ha : List.zipWith (fun lower upper => lower * x + y * upper) (as.take n) (as.drop n) =
      List.zipWith (· + ·) ((as.take n).map (x * ·)) ((as.drop n).map (y * ·)) := by
    rw [List.zipWith_map]
    simp only [mul_comm x]
  have hg : List.zipWith (fun lower upper => y • lower + x • upper) (gs.take n) (gs.drop n) =
      List.zipWith (· + ·) ((gs.take n).map (y • ·)) ((gs.drop n).map (x • ·)) := by
    rw [List.zipWith_map]
  have hwhole : weigh as gs =
      weigh (as.take n) (gs.take n) + weigh (as.drop n) (gs.drop n) := by
    rw [← weigh_append (by simp [has, hgs]), List.take_append_drop, List.take_append_drop]
  rw [ha, hg, hwhole, weigh_add_left _ (by simp [has]), weigh_add_right _ (by simp [hgs]),
    weigh_add_right _ (by simp [hgs])]
  simp only [weigh_scale, weigh_smul, smul_smul, mul_comm y x, hxy, one_smul]
  abel

/-- Weights on joined halves are weights on both halves. -/
theorem weigh_join (c c' : Scalar) {n : ℕ} {ws : List Scalar} {gs : List M}
    (hws : ws.length = n) (hgs : gs.length = n + n) :
    weigh (ws.map (c * ·) ++ ws.map (c' * ·)) gs =
      weigh ws (List.zipWith (fun lower upper => c • lower + c' • upper) (gs.take n)
        (gs.drop n)) := by
  have hg : List.zipWith (fun lower upper => c • lower + c' • upper) (gs.take n) (gs.drop n) =
      List.zipWith (· + ·) ((gs.take n).map (c • ·)) ((gs.drop n).map (c' • ·)) := by
    rw [List.zipWith_map]
  rw [hg, weigh_add_right _ (by simp [hgs]), ← List.take_append_drop n gs,
    weigh_append (by simp [hws, hgs]), List.take_append_drop]
  simp only [weigh_scale, weigh_smul]

end Halves

/-! ## The weights of a verifier -/

/-- The first challenge weighs the lower half by its inverse and the upper half by itself. -/
theorem foldWeights_cons {x : Scalar} (hx : x ≠ 0) (xs : List Scalar) :
    foldWeights (x :: xs) =
      (foldWeights xs).map (x⁻¹ * ·) ++ (foldWeights xs).map (x * ·) := by
  have hseed (c s : Scalar) : xs.foldr (fun x ws => ws ++ ws.map (· * (x * x))) [c * s] =
      (xs.foldr (fun x ws => ws ++ ws.map (· * (x * x))) [s]).map (c * ·) := by
    induction xs with
    | nil => rfl
    | cons x xs ih => simp [ih, mul_assoc]
  have hsquare (w : Scalar) : x⁻¹ * w * (x * x) = x * w := by
    field_simp
  simp only [foldWeights, Scalar.product_eq_prod, List.map_cons, List.prod_cons, List.foldr_cons,
    Scalar.inverse_eq_inv, hseed, List.map_map, Function.comp_def, hsquare]

@[simp] theorem length_foldWeights (xs : List Scalar) :
    (foldWeights xs).length = 2 ^ xs.length := by
  unfold foldWeights
  generalize Scalar.product (xs.map Scalar.inverse) = seed
  induction xs with
  | nil => rfl
  | cons x xs ih =>
    rw [List.foldr_cons, List.length_append, List.length_map, ih, List.length_cons,
      Nat.pow_succ, mul_two]

/-! ## Rounds -/

variable {P : Type} [Suite P]

/-- All four lists have the same length. -/
structure Vectors.HasLength (v : Vectors P) (n : ℕ) : Prop where
  g : v.g.length = n
  h : v.h.length = n
  a : v.a.length = n
  b : v.b.length = n

/-- Folding halves the length of the vectors. -/
theorem Vectors.HasLength.fold {v : Vectors P} {n : ℕ} (hv : v.HasLength (n + n)) (x : Scalar) :
    (v.fold x n).HasLength n where
  g := by simp [Vectors.fold, hv.g]
  h := by simp [Vectors.fold, hv.h]
  a := by simp [Vectors.fold, hv.a]
  b := by simp [Vectors.fold, hv.b]

variable [LawfulGroup P] {u : P}

/-- The commitment weighs the generators by the entries, and `u` by the inner product. -/
theorem commitment_eq (v : Vectors P) :
    v.commitment u = weigh v.a v.g + weigh v.b v.h + weigh v.a v.b • u := by
  simp [Vectors.commitment, Scalar.dot_eq_weigh, add_assoc]

/-- A round changes the commitment by the cross terms. -/
theorem commitment_fold {v : Vectors P} {n : ℕ} (hv : v.HasLength (n + n)) {x : Scalar}
    (hx : x ≠ 0) :
    (v.fold x n).commitment u = v.commitment u + (x * x) • (v.cross u n).left +
      (x⁻¹ * x⁻¹) • (v.cross u n).right := by
  have hxy := mul_inv_cancel₀ hx
  have hyx := inv_mul_cancel₀ hx
  have hb : List.zipWith (fun lower upper => lower * x⁻¹ + x * upper) (v.b.take n) (v.b.drop n) =
      List.zipWith (fun lower upper => x⁻¹ • lower + x • upper) (v.b.take n) (v.b.drop n) := by
    simp only [smul_eq_mul, mul_comm x⁻¹]
  have hag := weigh_joined hxy hv.a hv.g
  have hbh := weigh_joined hyx hv.b hv.h
  have hab := weigh_joined hxy hv.a hv.b
  rw [← hb] at hab
  simp only [commitment_eq, Vectors.fold, Vectors.cross, combine_eq, Scalar.inverse_eq_inv, hag,
    hbh, hab, smul_eq_mul]
  module

/-- The weights join the bases like a round does, in the order of one list and in the opposite
order of the other. -/
theorem weigh_foldWeights_cons {v : Vectors P} {xs : List Scalar}
    (hv : v.HasLength (2 ^ xs.length + 2 ^ xs.length)) {x : Scalar} (hx : x ≠ 0) :
    weigh (foldWeights (x :: xs)) v.g =
        weigh (foldWeights xs) (v.fold x (2 ^ xs.length)).g ∧
      weigh (foldWeights (x :: xs)).reverse v.h =
        weigh (foldWeights xs).reverse (v.fold x (2 ^ xs.length)).h := by
  simp only [foldWeights_cons hx, List.reverse_append, ← List.map_reverse, Vectors.fold, combine_eq,
    Scalar.inverse_eq_inv]
  exact ⟨weigh_join _ _ (length_foldWeights xs) hv.g,
    weigh_join _ _ (by rw [List.length_reverse, length_foldWeights]) hv.h⟩

/-! ## Whole arguments -/

omit [LawfulGroup P] in
theorem length_drawRounds (t : Transcript) (rounds : List (Round P)) :
    (drawRounds t rounds).1.length = rounds.length := by
  induction rounds generalizing t with
  | nil => rfl
  | cons r rounds ih => simp [drawRounds, ih]

omit [LawfulGroup P] in
theorem length_proveRounds (count : ℕ) (t : Transcript) (v : Vectors P) :
    (proveRounds u count t v).1.length = count := by
  induction count generalizing t v with
  | zero => rfl
  | succ count ih => simp [proveRounds, ih]

omit [LawfulGroup P] in
/-- Whoever reads the rounds of a prover draws the challenges of the prover, so both end with the
same transcript. -/
theorem drawRounds_proveRounds (count : ℕ) (t : Transcript) (v : Vectors P) :
    (drawRounds t (proveRounds u count t v).1).2 = (proveRounds u count t v).2.2.2 := by
  induction count generalizing t v with
  | zero => rfl
  | succ count ih =>
    simp only [proveRounds, drawRounds]
    exact ih ..

omit [LawfulGroup P] in
/-- In a suite without zero challenges no challenge of a round is zero. -/
theorem drawRounds_ne_zero (h : ∀ t label, Suite.challenge P t label ≠ 0) (t : Transcript)
    (rounds : List (Round P)) : ∀ x ∈ (drawRounds t rounds).1, x ≠ 0 := by
  induction rounds generalizing t with
  | nil => simp [drawRounds]
  | cons r rounds ih =>
    simp only [drawRounds, List.forall_mem_cons]
    exact ⟨h _ _, ih _⟩

/-- What a verifier checks, for given challenges and rounds: the scalars that are left, over the
bases with their weights, give the commitment with all cross terms. -/
def Unfolds (u : P) (g h : List P) (commitment : P) (xs : List Scalar) (rounds : List (Round P))
    (a b : Scalar) : Prop :=
  a • weigh (foldWeights xs) g + b • weigh (foldWeights xs).reverse h + (a * b) • u =
    commitment + weigh (xs.map fun x => x * x) (rounds.map Round.left) +
      weigh (xs.map fun x => x⁻¹ * x⁻¹) (rounds.map Round.right)

/-- Vectors of length one are the scalars that are left. -/
theorem unfolds_nil {v : Vectors P} (hv : v.HasLength 1) :
    Unfolds u v.g v.h (v.commitment u) [] [] (v.a.headD 0) (v.b.headD 0) := by
  obtain ⟨g, hg⟩ := List.length_eq_one_iff.mp hv.g
  obtain ⟨h, hh⟩ := List.length_eq_one_iff.mp hv.h
  obtain ⟨a, ha⟩ := List.length_eq_one_iff.mp hv.a
  obtain ⟨b, hb⟩ := List.length_eq_one_iff.mp hv.b
  simp [Unfolds, commitment_eq, hg, hh, ha, hb, foldWeights]

/-- A round with its cross terms comes before the rounds of the joined vectors. -/
theorem Unfolds.cons {v : Vectors P} {xs : List Scalar} {rounds : List (Round P)} {a b : Scalar}
    (hv : v.HasLength (2 ^ xs.length + 2 ^ xs.length)) {x : Scalar} (hx : x ≠ 0)
    (h : Unfolds u (v.fold x (2 ^ xs.length)).g (v.fold x (2 ^ xs.length)).h
      ((v.fold x (2 ^ xs.length)).commitment u) xs rounds a b) :
    Unfolds u v.g v.h (v.commitment u) (x :: xs) (v.cross u (2 ^ xs.length) :: rounds) a b := by
  obtain ⟨hg, hh⟩ := weigh_foldWeights_cons hv hx
  rw [Unfolds, hg, hh, h, commitment_fold hv hx]
  simp only [List.map_cons, weigh_cons]
  abel

/-- The last commitment, over the bases with their weights, is the first one with all cross
terms. -/
theorem unfolds_proveRounds (count : ℕ) (t : Transcript) {v : Vectors P}
    (hv : v.HasLength (2 ^ count)) {rounds : List (Round P)} {a b : Scalar} {t' : Transcript}
    (hprove : proveRounds u count t v = (rounds, a, b, t')) {xs : List Scalar}
    {t'' : Transcript} (hdraw : drawRounds t rounds = (xs, t'')) (hxs : ∀ x ∈ xs, x ≠ 0) :
    Unfolds u v.g v.h (v.commitment u) xs rounds a b := by
  induction count generalizing t v rounds xs t'' with
  | zero =>
    cases hprove
    cases hdraw
    exact unfolds_nil hv
  | succ count ih =>
    have hhalves : v.HasLength (2 ^ count + 2 ^ count) := by rwa [← mul_two, ← Nat.pow_succ]
    rcases hround : drawRound t (v.cross u (2 ^ count)) with ⟨x, t₁⟩
    rcases hrest : proveRounds u count t₁ (v.fold x (2 ^ count)) with ⟨rounds', a', b', t₂⟩
    simp only [proveRounds, hround, hrest] at hprove
    cases hprove
    rcases hdrawn : drawRounds t₁ rounds' with ⟨xs', t₃⟩
    simp only [drawRounds, hround, hdrawn] at hdraw
    cases hdraw
    obtain ⟨hx, hxs'⟩ := List.forall_mem_cons.mp hxs
    have hcount : xs'.length = count := by
      have hdraws := length_drawRounds t₁ rounds'
      have hproves := length_proveRounds (u := u) count t₁ (v.fold x (2 ^ count))
      rwa [hdrawn, ← congrArg (fun p => p.1.length) hrest, hproves] at hdraws
    subst hcount
    exact (ih t₁ (hhalves.fold x) hrest hdrawn hxs').cons hhalves hx

/-- The challenges of the rounds of a proof about vectors of length `n`. -/
def Proof.roundChallenges (t : Transcript) (n : ℕ) (proof : Proof P) : List Scalar :=
  (drawRounds (openArgument t n proof.commitment) proof.rounds).1

omit [LawfulGroup P] in
/-- Vectors of one length, a power of two, have a proof, with one round for each factor two. -/
theorem exists_create {count : ℕ} (t : Transcript) {v : Vectors P} (hv : v.HasLength (2 ^ count)) :
    ∃ proof t', Proof.create t u v = .ok (proof, t') ∧ proof.commitment = v.commitment u ∧
      proveRounds u count (openArgument t (2 ^ count) proof.commitment) v =
        (proof.rounds, proof.a, proof.b, t') := by
  have hlengths : checkLengths v = .ok () := by
    simp [checkLengths, hv.g, hv.h, hv.a, hv.b, isPowerOfTwo_two_pow]
  rcases hrounds : proveRounds u count (openArgument t (2 ^ count) (v.commitment u)) v with
    ⟨rounds, a, b, t'⟩
  refine ⟨⟨rounds, a, b, v.commitment u⟩, t', ?_, rfl, hrounds⟩
  simp [Proof.create, hlengths, hv.g, hrounds, bind, Except.bind, pure, Except.pure]

omit [LawfulGroup P] in
/-- A proof about vectors of length `2 ^ count` has `count` rounds. -/
theorem length_rounds_of_create {count : ℕ} {t t' : Transcript} {u : P} {v : Vectors P}
    {proof : Proof P} (hlength : v.g.length = 2 ^ count)
    (h : Proof.create t u v = .ok (proof, t')) : proof.rounds.length = count := by
  unfold Proof.create at h
  obtain ⟨-, h⟩ := check_bind_eq_ok.mp h
  have hcount : ceilLog2 v.g.length = count := hlength ▸ ceilLog2_two_pow count
  obtain ⟨rfl, -⟩ := Prod.mk.inj (pure_eq_ok.mp h)
  exact (length_proveRounds ..).trans hcount

/-- What a verifier computes, by the bases and the cross terms. -/
theorem left_equation (g h : List P) (factors xs : List Scalar) (proof : Proof P) :
    (equation u g h factors xs proof).left = (proof.a * proof.b) • u +
      proof.a • weigh (foldWeights xs) g +
      proof.b • weigh (foldWeights xs).reverse (List.zipWith (· • ·) factors h) -
      weigh (xs.map fun x => x * x) (proof.rounds.map Round.left) -
      weigh (xs.map fun x => x⁻¹ * x⁻¹) (proof.rounds.map Round.right) := by
  have hfactors : List.zipWith (fun weight factor => proof.b * weight * factor)
      (foldWeights xs).reverse factors =
      (List.zipWith (· * ·) (foldWeights xs).reverse factors).map (proof.b * ·) := by
    simp only [List.map_zipWith, mul_assoc]
  simp only [equation, weightedSum_cons, weightedSum_append, weightedSum_zip, weigh_scale,
    hfactors, weigh_mul, weigh_map_neg, Scalar.inverse_eq_inv]
  abel

omit [LawfulGroup P] in
/-- The right side of the equation is the commitment that the proof names. -/
theorem right_equation (g h : List P) (factors xs : List Scalar) (proof : Proof P) :
    (equation u g h factors xs proof).right = proof.commitment := rfl

/-- The equation holds exactly if the commitment unfolds along the rounds to the last two
entries. -/
theorem equation_holds_iff {g h : List P} {factors xs : List Scalar} {proof : Proof P} :
    (equation u g h factors xs proof).Holds ↔
      Unfolds u g (List.zipWith (· • ·) factors h) proof.commitment xs proof.rounds proof.a
        proof.b := by
  rw [Equation.Holds, left_equation, right_equation, Unfolds, sub_eq_iff_eq_add, sub_eq_iff_eq_add,
    add_assoc ((proof.a * proof.b) • u), add_comm ((proof.a * proof.b) • u),
    add_right_comm proof.commitment]

/-- The equation of a verifier holds for an honest proof, if no challenge is zero. -/
theorem equation_holds {count : ℕ} {t t' : Transcript} {g h : List P} {factors a b : List Scalar}
    {proof : Proof P} (hcommitment : proof.commitment = Vectors.commitment u
      ⟨g, List.zipWith (· • ·) factors h, a, b⟩)
    (hv : Vectors.HasLength ⟨g, List.zipWith (· • ·) factors h, a, b⟩ (2 ^ count))
    (hrounds : proveRounds u count t ⟨g, List.zipWith (· • ·) factors h, a, b⟩ =
      (proof.rounds, proof.a, proof.b, t'))
    (hxs : ∀ x ∈ (drawRounds t proof.rounds).1, x ≠ 0) :
    (equation u g h factors (drawRounds t proof.rounds).1 proof).Holds := by
  rw [equation_holds_iff, hcommitment]
  exact unfolds_proveRounds count t hv hrounds rfl hxs

omit [LawfulGroup P] in
/-- The rounds of a proof about vectors of a fitting length have challenges. -/
theorem Proof.challenges_eq {proof : Proof P} (hcount : proof.rounds.length < maxRounds)
    (t : Transcript) :
    proof.challenges t (2 ^ proof.rounds.length) = .ok (drawRounds
      (openArgument t (2 ^ proof.rounds.length) proof.commitment) proof.rounds) := by
  simp [challenges, isWellFormed, hcount]

omit [LawfulGroup P] in
/-- Over lists of one length the equation decides. -/
theorem Proof.verify_eq {proof : Proof P} {t t' : Transcript} {g h : List P}
    {factors xs : List Scalar} (hh : h.length = g.length) (hfactors : factors.length = g.length)
    (hchallenges : proof.challenges t g.length = .ok (xs, t')) :
    proof.verify t u g h factors = if (equation u g h factors xs proof).Holds then .ok t'
      else .error (.rejected .innerProduct 1) := by
  simp only [verify, hh, hfactors, ne_eq, not_true_eq_false, or_self, if_false, hchallenges, bind,
    Except.bind, pure, Except.pure, Equation.checkAll]
  have hstatement : (equation u g h factors xs proof).statement = 1 := rfl
  by_cases hholds : (equation u g h factors xs proof).Holds
  · simp [hholds]
  · simp [hholds, hstatement]

/-- An honest proof is accepted, if no challenge is zero, and leaves prover and verifier with the
same transcript. -/
theorem exists_verify_create {count : ℕ} (hcount : count < maxRounds) (t : Transcript)
    {g h : List P} {factors a b : List Scalar} (hh : h.length = 2 ^ count)
    (hfactors : factors.length = 2 ^ count)
    (hv : Vectors.HasLength ⟨g, List.zipWith (· • ·) factors h, a, b⟩ (2 ^ count)) :
    ∃ proof t', Proof.create t u ⟨g, List.zipWith (· • ·) factors h, a, b⟩ = .ok (proof, t') ∧
      proof.commitment = Vectors.commitment u ⟨g, List.zipWith (· • ·) factors h, a, b⟩ ∧
      proof.rounds.length = count ∧
      ((∀ x ∈ proof.roundChallenges t (2 ^ count), x ≠ 0) →
        proof.verify t u g h factors = .ok t') := by
  obtain ⟨proof, t', hcreate, hcommitment, hrounds⟩ := exists_create t hv
  have hlength : proof.rounds.length = count := by
    rw [← length_proveRounds (u := u) count, hrounds]
  have hstep : (drawRounds (openArgument t (2 ^ count) proof.commitment) proof.rounds).2 = t' := by
    have h := drawRounds_proveRounds (u := u) count (openArgument t (2 ^ count) proof.commitment)
      ⟨g, List.zipWith (· • ·) factors h, a, b⟩
    rwa [hrounds] at h
  refine ⟨proof, t', hcreate, hcommitment, hlength, fun hxs => ?_⟩
  have hg : g.length = 2 ^ count := hv.g
  have hchallenges := Proof.challenges_eq (hlength.symm ▸ hcount) t
  rw [hlength, ← hg] at hchallenges
  rw [Proof.verify_eq (hh.trans hg.symm) (hfactors.trans hg.symm) hchallenges, hg, hstep]
  exact if_pos (equation_holds hcommitment hv hrounds hxs)

/-! ## Vectors that do not fit -/

omit [Suite P] [LawfulGroup P] in
/-- Lengths pass exactly if they are one power of two. -/
theorem checkLengths_eq_ok_iff {v : Vectors P} :
    checkLengths v = .ok () ↔ ∃ count, v.HasLength (2 ^ count) := by
  constructor
  · intro h
    simp only [checkLengths] at h
    split_ifs at h with hh ha hb hpower
    have hpad : pad v.g.length = v.g.length := by simpa [isPowerOfTwo] using hpower
    exact ⟨ceilLog2 v.g.length, hpad.symm, (not_not.mp hh).trans hpad.symm,
      (not_not.mp ha).trans hpad.symm, (not_not.mp hb).trans hpad.symm⟩
  · rintro ⟨count, hv⟩
    simp [checkLengths, hv.g, hv.h, hv.a, hv.b, isPowerOfTwo_two_pow]

omit [Suite P] [LawfulGroup P] in
/-- A refusal names two different lengths. -/
theorem exists_lengthMismatch_of_checkLengths {v : Vectors P} (h : checkLengths v ≠ .ok ()) :
    ∃ expected actual, checkLengths v = .error (.lengthMismatch expected actual) ∧
      expected ≠ actual := by
  simp only [checkLengths] at h ⊢
  split_ifs at h ⊢ with hh ha hb hpower
  · exact ⟨_, _, rfl, Ne.symm hh⟩
  · exact ⟨_, _, rfl, Ne.symm ha⟩
  · exact ⟨_, _, rfl, Ne.symm hb⟩
  · exact absurd rfl h
  · exact ⟨_, _, rfl, by simpa [isPowerOfTwo] using hpower⟩

/-! ## Completeness -/

/-- Completeness, with prover and verifier in step: vectors of one length `2 ^ count` have a proof
with `count` rounds that carries their commitment, and a verifier that starts with the same
transcript accepts it and ends with the transcript of the prover, unless a challenge is zero.
Vectors of any other lengths are refused. -/
theorem create_verifies_in_step (t : Transcript) (u : P) :
    (∀ (count : ℕ) (g h : List P) (factors a b : List Scalar), count < maxRounds →
      Vectors.HasLength ⟨g, h, a, b⟩ (2 ^ count) → factors.length = 2 ^ count →
      ∃ proof t', Proof.create t u ⟨g, List.zipWith (· • ·) factors h, a, b⟩ = .ok (proof, t') ∧
        proof.commitment = Vectors.commitment u ⟨g, List.zipWith (· • ·) factors h, a, b⟩ ∧
        proof.rounds.length = count ∧
        ((∀ x ∈ proof.roundChallenges t (2 ^ count), x ≠ 0) →
          proof.verify t u g h factors = .ok t')) ∧
    ∀ v : Vectors P, (¬ ∃ count, v.HasLength (2 ^ count)) →
      ∃ expected actual, Proof.create t u v = .error (.lengthMismatch expected actual) ∧
        expected ≠ actual := by
  refine ⟨fun count g h factors a b hcount hv hfactors => ?_, fun v hv => ?_⟩
  · have hrescaled :
        Vectors.HasLength ⟨g, List.zipWith (· • ·) factors h, a, b⟩ (2 ^ count) := by
      refine ⟨hv.g, ?_, hv.a, hv.b⟩
      have hh : h.length = 2 ^ count := hv.h
      simp [hfactors, hh]
    exact exists_verify_create (u := u) hcount t hv.h hfactors hrescaled
  · obtain ⟨expected, actual, hcheck, hne⟩ :=
      exists_lengthMismatch_of_checkLengths (mt checkLengths_eq_ok_iff.mp hv)
    refine ⟨expected, actual, ?_, hne⟩
    simp [Proof.create, hcheck, bind, Except.bind]

/-- Vectors of length four over the units and their opposites, whose commitment has the entries
of the vectors for coordinates, and vectors without entries. -/
theorem create_verifies_in_step_ideal :
    let t := Transcript.start "vectors"
    let u : Opening := ⟨0, 0, 0, 0, 1⟩
    let g : List Opening := [⟨1, 0, 0, 0, 0⟩, ⟨0, 1, 0, 0, 0⟩, ⟨0, 0, 1, 0, 0⟩, ⟨0, 0, 0, 1, 0⟩]
    let h := g.map (-·)
    (∃ proof t', Proof.create t u ⟨g, List.zipWith (· • ·) [1, 2, 3, 4] h, [5, 6, 7, 8],
        [9, 10, 11, 12]⟩ = .ok (proof, t') ∧
      proof.commitment = ⟨5 - 9, 6 - 2 * 10, 7 - 3 * 11, 8 - 4 * 12, 278⟩ ∧
      proof.rounds.length = 2 ∧ proof.verify t u g h [1, 2, 3, 4] = .ok t') ∧
    ∃ expected actual,
      Proof.create t u ⟨[], [], [], []⟩ = .error (.lengthMismatch expected actual) ∧
        expected ≠ actual := by
  intro t u g h
  obtain ⟨hcreate, hrefuse⟩ := create_verifies_in_step t u
  constructor
  · obtain ⟨proof, t', hproof, hcommitment, hrounds, hverify⟩ := hcreate 2 g h [1, 2, 3, 4]
      [5, 6, 7, 8] [9, 10, 11, 12] (by decide) ⟨rfl, rfl, rfl, rfl⟩ rfl
    exact ⟨proof, t', hproof, hcommitment.trans (by decide), hrounds,
      hverify (drawRounds_ne_zero (fun _ _ => one_ne_zero) _ _)⟩
  · refine hrefuse _ fun ⟨count, hv⟩ => ?_
    exact (Nat.two_pow_pos count).ne hv.g

end ConfidentialPayment.InnerProduct
