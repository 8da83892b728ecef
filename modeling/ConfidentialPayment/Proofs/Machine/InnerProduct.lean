import ConfidentialPayment.Machine.InnerProduct
import ConfidentialPayment.Proofs.InnerProduct.Recursive
import ConfidentialPayment.Proofs.InnerProduct.Weights
import ConfidentialPayment.Proofs.Machine.Arithmetic
import ConfidentialPayment.Proofs.Suite.Ideal

/-!
# ConfidentialPayment.Proofs.Machine.InnerProduct

The verifier on the machine is the recursive one.

1. All inversions at once give the inverses (`invertAll_eq`).
2. One step of the loop appends the next entry of the doubled list: the number of leading zeros is
   that of the leading digit, and every place that the step asks for is there
   (`nextWeight_take_doubled`). So the loop gives the whole list (`foldlM_nextWeight`).
3. The scalars of a proof that fits are computed without a fault, whatever the challenges are
   (`verificationScalars_eq`), and so is the decision. If no challenge is zero, it is the decision
   of the equation (`exists_verifyArgument_eq`), and so the one of the recursive verifier.
-/

namespace ConfidentialPayment

/-! ## Inverting a list -/

namespace Scalar

@[simp] theorem length_invertFrom (before : Scalar) (xs : List Scalar) :
    (invertFrom before xs).2.2.length = xs.length := by
  induction xs generalizing before with
  | nil => rfl
  | cons x xs ih => simp [invertFrom, ih]

/-- One inversion for the whole list gives the inverses of all entries if none is zero. -/
theorem invertFrom_eq {before : Scalar} (hbefore : before ≠ 0) {xs : List Scalar}
    (hxs : ∀ x ∈ xs, x ≠ 0) :
    invertFrom before xs = ((before * xs.prod)⁻¹, before⁻¹, xs.map (·⁻¹)) := by
  induction xs generalizing before with
  | nil => simp [invertFrom, inverse_eq_inv]
  | cons x xs ih =>
    obtain ⟨hx, hxs⟩ := List.forall_mem_cons.mp hxs
    have hcancel : (before * x)⁻¹ * x = before⁻¹ := by field_simp
    have hcancel' : (before * x)⁻¹ * before = x⁻¹ := by field_simp
    rw [invertFrom, ih (mul_ne_zero hbefore hx) hxs, List.prod_cons, ← mul_assoc]
    simp only [hcancel, hcancel', List.map_cons]

/-- Inverting a list without zeros gives the inverse of its product and those of its entries. -/
theorem invertAll_eq {xs : List Scalar} (hxs : ∀ x ∈ xs, x ≠ 0) :
    invertAll xs = (xs.prod⁻¹, xs.map (·⁻¹)) := by
  rw [invertAll, invertFrom_eq one_ne_zero hxs, one_mul]

end Scalar

namespace Machine

open ConfidentialPayment.InnerProduct

variable {P : Type} [Suite P]

/-! ## The loop -/

/-- In 32 bits the leading digit is as many places below the last one as there are leading zeros. -/
theorem leading_digit {i : ℕ} (hpos : i ≠ 0) (hi : i < 2 ^ 32) :
    sub (32 - 1) (leadingZeros 32 i) = .ok i.log2 := by
  have hdigits := leadingZeros_add_log2 hpos hi
  rw [sub_eq (by omega), show 32 - 1 - leadingZeros 32 i = i.log2 by omega]

/-- A step appends the next entry. -/
theorem nextWeight_take_doubled {squares : List Scalar} {seed : Scalar}
    (hcount : squares.length < maxRounds) {i : ℕ} (hpos : i ≠ 0) (hi : i < 2 ^ squares.length) :
    nextWeight squares.length squares ((doubled squares seed).take i) i =
      .ok ((doubled squares seed).take (i + 1)) := by
  obtain ⟨weight, square, hweight, hsquare, hproduct⟩ :=
    exists_getElem?_doubled squares seed hpos hi
  have hlog : i.log2 < squares.length := (Nat.log2_lt hpos).mpr hi
  have hpower : 2 ^ i.log2 ≤ i := Nat.log2_self_le hpos
  have hbefore : ((doubled squares seed).take i)[i - 2 ^ i.log2]? = some weight := by
    rwa [List.getElem?_take_of_lt (Nat.sub_lt (Nat.pos_of_ne_zero hpos) (Nat.two_pow_pos _))]
  have hsmall : i < 2 ^ 32 := Nat.lt_trans hi (Nat.pow_lt_pow_right (by decide) hcount)
  have hbits : i.log2 < wordBits := Nat.lt_trans hlog (Nat.lt_trans hcount (by decide))
  rw [nextWeight, leading_digit hpos hsmall, ok_bind, shiftLeft_one hbits, ok_bind,
    sub_eq (by omega), ok_bind, sub_eq (by omega), ok_bind, get_eq hsquare, ok_bind,
    sub_eq hpower, ok_bind, get_eq hbefore, ok_bind, List.take_add_one, hproduct]
  rfl

/-- The loop over all places but the first appends all entries. -/
theorem foldlM_nextWeight {squares : List Scalar} (seed : Scalar)
    (hcount : squares.length < maxRounds) {steps : ℕ} (hsteps : steps < 2 ^ squares.length) :
    (List.range' 1 steps).foldlM (nextWeight squares.length squares) [seed] =
      .ok ((doubled squares seed).take (steps + 1)) := by
  induction steps with
  | zero => rw [Nat.zero_add, take_one_doubled]; rfl
  | succ steps ih =>
    rw [List.range'_1_concat, List.foldlM_append, ih (Nat.lt_of_succ_lt hsteps), ok_bind,
      List.foldlM_cons, Nat.add_comm 1 steps,
      nextWeight_take_doubled hcount (Nat.succ_ne_zero _) hsteps]
    rfl

/-! ## The scalars of a verifier -/

/-- The scalars for given challenges. -/
def VerificationScalars.ofChallenges (challenges : List Scalar) : VerificationScalars :=
  let (product, inverses) := Scalar.invertAll challenges
  let squares := challenges.map fun x => x * x
  ⟨squares, inverses.map fun y => y * y, doubled squares product⟩

/-- As long as there are fewer rounds than allowed, the scalars are computed without a fault. -/
theorem scalarsFor_eq {challenges : List Scalar} (hcount : challenges.length < maxRounds) :
    scalarsFor challenges.length (2 ^ challenges.length) challenges =
      .ok (.ofChallenges challenges) := by
  let squares := challenges.map fun x => x * x
  let product := (Scalar.invertAll challenges).1
  have hsquares : squares.length = challenges.length := List.length_map ..
  have hpos : 0 < 2 ^ squares.length := Nat.two_pow_pos _
  have hloop := foldlM_nextWeight product (hsquares ▸ hcount) (Nat.sub_lt hpos Nat.one_pos)
  rw [Nat.sub_add_cancel hpos, ← length_doubled squares product, List.take_length, length_doubled,
    hsquares] at hloop
  unfold scalarsFor
  dsimp only
  rw [hloop]
  rfl

/-- The scalars are computed without a fault exactly where there are challenges, whatever the
challenges are. -/
theorem verificationScalars_eq (t : Transcript) (n : ℕ) (proof : Proof P) :
    verificationScalars t n proof =
      ofExcept ((proof.challenges t n).map fun (challenges, t') =>
        (VerificationScalars.ofChallenges challenges, t')) := by
  unfold verificationScalars Proof.challenges
  dsimp only
  by_cases hformed : proof.isWellFormed = true
  · have hcount : proof.rounds.length < maxRounds := of_decide_eq_true hformed
    rw [if_neg (not_not.mpr hformed), shiftLeft_one (Nat.lt_trans hcount (by decide)), ok_bind]
    by_cases hn : n = 2 ^ proof.rounds.length
    · subst hn
      have hlength := length_drawRounds (openArgument t (2 ^ proof.rounds.length) proof.commitment)
        proof.rounds
      have hscalars := scalarsFor_eq (hlength.symm ▸ hcount)
      rw [hlength] at hscalars
      rw [if_neg (not_not.mpr rfl), hscalars, hformed, decide_eq_true rfl]
      rfl
    · rw [if_pos hn, refuse_bind, hformed, decide_eq_false hn]
      rfl
  · rw [if_pos hformed, refuse_bind, Bool.eq_false_of_not_eq_true hformed]
    rfl

/-! ## The decision -/

/-- If no challenge is zero, the scalars are the ones of the equation. -/
theorem VerificationScalars.ofChallenges_eq {challenges : List Scalar}
    (hne : ∀ x ∈ challenges, x ≠ 0) :
    ofChallenges challenges = ⟨challenges.map fun x => x * x,
      challenges.map fun x => x.inverse * x.inverse, foldWeights challenges⟩ := by
  have hproduct : Scalar.product (challenges.map Scalar.inverse) = challenges.prod⁻¹ := by
    rw [Scalar.product_eq_prod, List.prod_inv]
    rfl
  rw [foldWeights_eq_doubled, hproduct]
  unfold ofChallenges
  rw [Scalar.invertAll_eq hne]
  dsimp only
  rw [List.map_map]
  rfl

section

variable {t t' : Transcript} {u : P} {g h : List P} {factors challenges : List Scalar}
  {proof : Proof P}

omit [Suite P] in
/-- There are as many scalars as points. -/
theorem length_coefficients (hg : g.length = 2 ^ challenges.length) (hh : h.length = g.length)
    (hfactors : factors.length = g.length) (hcount : challenges.length = proof.rounds.length) :
    ((VerificationScalars.ofChallenges challenges).coefficients factors proof).length =
      (argumentPoints u g h proof).length := by
  simp [VerificationScalars.coefficients, VerificationScalars.ofChallenges, Scalar.invertAll,
    argumentPoints, hh, hfactors, hg, hcount]

/-- If no challenge is zero, the sum is the one of the equation. -/
theorem weightedSum_coefficients (hne : ∀ x ∈ challenges, x ≠ 0)
    (hg : g.length = 2 ^ challenges.length) (hh : h.length = g.length)
    (hfactors : factors.length = g.length) (hcount : challenges.length = proof.rounds.length) :
    Suite.weightedSum (((VerificationScalars.ofChallenges challenges).coefficients factors
        proof).zip (argumentPoints u g h proof)) =
      (equation u g h factors challenges proof).left := by
  rw [VerificationScalars.ofChallenges_eq hne]
  simp only [VerificationScalars.coefficients, argumentPoints, List.zip_cons_cons, List.map_map]
  rw [List.zip_append, List.zip_append, List.zip_append]
  · rfl
  all_goals simp [hg, hh, hfactors, hcount]

/-- Where there are challenges, the sum decides. -/
theorem verifyArgument_of_challenges (hh : h.length = g.length)
    (hfactors : factors.length = g.length)
    (hchallenges : proof.challenges t g.length = .ok (challenges, t')) :
    verifyArgument t u g h factors proof = ofExcept
      (if Suite.weightedSum (((VerificationScalars.ofChallenges challenges).coefficients factors
        proof).zip (argumentPoints u g h proof)) = proof.commitment then .ok t'
      else .error (.rejected .innerProduct 1)) := by
  obtain ⟨-, hcount, hg⟩ := Proof.of_challenges_eq_ok hchallenges
  have hscalars : verificationScalars t g.length proof =
      .ok (VerificationScalars.ofChallenges challenges, t') := by
    rw [verificationScalars_eq, hchallenges]
    rfl
  unfold verifyArgument
  dsimp only
  rw [if_neg (by simp [hh, hfactors]), hscalars, ok_bind]
  dsimp only
  rw [weightedSum, if_pos (length_coefficients hg hh hfactors hcount), ok_bind]
  split
  · rfl
  · rfl

end

/-- The machine comes to a decision, which is the one of the equation if no challenge is zero. -/
theorem exists_verifyArgument_eq (t : Transcript) (u : P) (g h : List P) (factors : List Scalar)
    (proof : Proof P) :
    ∃ decision, verifyArgument t u g h factors proof = ofExcept decision ∧
      ((∀ x ∈ proof.roundChallenges t g.length, x ≠ 0) →
        decision = proof.verify t u g h factors) := by
  by_cases hlengths : h.length ≠ g.length ∨ factors.length ≠ g.length
  · refine ⟨.error (.lengthMismatch g.length (min h.length factors.length)), ?_, fun _ => ?_⟩
    · rw [verifyArgument, if_pos hlengths, refuse_bind, ofExcept_error]
    · rw [Proof.verify_of_lengths hlengths]
  · obtain ⟨hh, hfactors⟩ := not_or.mp hlengths
    rw [not_not] at hh hfactors
    cases hchallenges : proof.challenges t g.length with
    | error cause =>
      refine ⟨.error cause, ?_, fun _ => ?_⟩
      · rw [verifyArgument, if_neg hlengths, verificationScalars_eq, hchallenges]
        rfl
      · rw [Proof.verify_of_challenges hlengths hchallenges]
    | ok drawn =>
      obtain ⟨challenges, t'⟩ := drawn
      refine ⟨_, verifyArgument_of_challenges hh hfactors hchallenges, fun hne => ?_⟩
      obtain ⟨hdrawn, hcount, hg⟩ := Proof.of_challenges_eq_ok hchallenges
      rw [Proof.verify_eq hh hfactors hchallenges,
        weightedSum_coefficients (hdrawn ▸ hne) hg hh hfactors hcount]
      rfl

/-! ## The recursive verifier -/

/-- Vectors whose length is not the power of two for the rounds have no scalars. -/
theorem verificationScalars_of_ne {t : Transcript} {n : ℕ} {proof : Proof P}
    (hn : n ≠ 2 ^ proof.rounds.length) :
    verificationScalars t n proof = refuse (.rejected .innerProduct 0) := by
  have hchallenges : proof.challenges t n = .error (.rejected .innerProduct 0) := by
    rw [Proof.challenges, decide_eq_false hn, Bool.and_false]
    rfl
  rw [verificationScalars_eq, hchallenges]
  rfl

/-- If no challenge is zero, the weights are what the digits of the bases say. -/
theorem exists_verificationScalars {t : Transcript} {proof : Proof P}
    (hcount : proof.rounds.length < maxRounds)
    (hne : ∀ x ∈ proof.roundChallenges t (2 ^ proof.rounds.length), x ≠ 0) :
    ∃ s t', verificationScalars t (2 ^ proof.rounds.length) proof = .ok (s, t') ∧
      s.weights.length = 2 ^ proof.rounds.length ∧
      ∀ i < 2 ^ proof.rounds.length,
        s.weights[i]? = some (weightAt (proof.roundChallenges t (2 ^ proof.rounds.length)) i) ∧
        s.weights[2 ^ proof.rounds.length - 1 - i]? = s.weights[i]?.map (·⁻¹) := by
  have hscalars := verificationScalars_eq t (2 ^ proof.rounds.length) proof
  rw [Proof.challenges_eq hcount] at hscalars
  set challenges := proof.roundChallenges t (2 ^ proof.rounds.length)
  have hlength : challenges.length = proof.rounds.length := length_drawRounds ..
  refine ⟨.ofChallenges challenges, _, hscalars, ?_, fun i hi => ?_⟩
  · rw [VerificationScalars.ofChallenges_eq hne, length_foldWeights, hlength]
  · rw [← hlength] at hi ⊢
    have hopposite : 2 ^ challenges.length - 1 - i < 2 ^ challenges.length := by omega
    rw [VerificationScalars.ofChallenges_eq hne, getElem?_foldWeights hne hi,
      getElem?_foldWeights hne hopposite, weightAt_opposite challenges hi]
    exact ⟨rfl, rfl⟩

/-- The verifier on the machine, which doubles its list of weights and inverts all challenges at
once, is the recursive one.

* No step of it faults, whatever it is given, and bases whose number is not the power of two for the
  rounds are refused.
* The weight of a base has a challenge as a factor if the digit of the base that the round halves by
  is set, and its inverse if not; the opposite base has the inverse weight.
* If no challenge is zero, it comes to the decision of halving the bases round by round. -/
theorem verifyArgument_matches_recursion [LawfulGroup P] (t : Transcript) (proof : Proof P) :
    (∀ (u : P) (g h : List P) (factors : List Scalar) (f : Fault),
      verifyArgument t u g h factors proof ≠ fault f) ∧
    (∀ n ≠ 2 ^ proof.rounds.length,
      verificationScalars t n proof = refuse (.rejected .innerProduct 0)) ∧
    (∀ (u : P) (g h : List P) (factors : List Scalar), g.length ≠ 2 ^ proof.rounds.length →
      ∃ cause, verifyArgument t u g h factors proof = refuse cause) ∧
    (proof.rounds.length < maxRounds →
      (∀ x ∈ proof.roundChallenges t (2 ^ proof.rounds.length), x ≠ 0) →
      ∃ s t', verificationScalars t (2 ^ proof.rounds.length) proof = .ok (s, t') ∧
        s.weights.length = 2 ^ proof.rounds.length ∧
        ∀ i < 2 ^ proof.rounds.length,
          s.weights[i]? = some (weightAt (proof.roundChallenges t (2 ^ proof.rounds.length)) i) ∧
          s.weights[2 ^ proof.rounds.length - 1 - i]? = s.weights[i]?.map (·⁻¹)) ∧
    ∀ (u : P) (g h : List P) (factors : List Scalar),
      (∀ x ∈ proof.roundChallenges t g.length, x ≠ 0) →
      verifyArgument t u g h factors proof =
          ofExcept (proof.verifyRecursively t u g h factors) ∧
        proof.verify t u g h factors = proof.verifyRecursively t u g h factors := by
  refine ⟨fun u g h factors f => ?_, fun n => verificationScalars_of_ne, fun u g h factors hg => ?_,
    exists_verificationScalars, fun u g h factors hne => ?_⟩
  · obtain ⟨decision, hdecision, -⟩ := exists_verifyArgument_eq t u g h factors proof
    rw [hdecision]
    exact ofExcept_ne_fault decision f
  · by_cases hlengths : h.length ≠ g.length ∨ factors.length ≠ g.length
    · exact ⟨_, by rw [verifyArgument, if_pos hlengths, refuse_bind]⟩
    · exact ⟨_, by rw [verifyArgument, if_neg hlengths, verificationScalars_of_ne hg, refuse_bind]⟩
  · obtain ⟨decision, hdecision, heq⟩ := exists_verifyArgument_eq t u g h factors proof
    have hrecursive : proof.verify t u g h factors = proof.verifyRecursively t u g h factors :=
      Proof.verify_eq_verifyRecursively hne
    rw [hdecision, heq hne]
    exact ⟨congrArg ofExcept hrecursive, hrecursive⟩

/-- An argument of two rounds over four units, and three bases that do not fit it. -/
theorem verifyArgument_matches_recursion_ideal :
    let t := Transcript.start "vectors"
    let u : Opening := ⟨0, 0, 0, 0, 1⟩
    let g : List Opening := [⟨1, 0, 0, 0, 0⟩, ⟨0, 1, 0, 0, 0⟩, ⟨0, 0, 1, 0, 0⟩, ⟨0, 0, 0, 1, 0⟩]
    let proof : Proof Opening := ⟨[⟨u, u⟩, ⟨u, u⟩], 2, 3, u⟩
    (∀ f, verifyArgument t u g g [1, 2, 3, 4] proof ≠ fault f) ∧
    verificationScalars t 3 proof = refuse (.rejected .innerProduct 0) ∧
    (∃ s t', verificationScalars t 4 proof = .ok (s, t') ∧ s.weights.length = 4 ∧
      s.weights[2]? = some (weightAt (proof.roundChallenges t 4) 2) ∧
      s.weights[1]? = s.weights[2]?.map (·⁻¹)) ∧
    verifyArgument t u g g [1, 2, 3, 4] proof =
      ofExcept (proof.verifyRecursively t u g g [1, 2, 3, 4]) := by
  intro t u g proof
  obtain ⟨hfault, hshape, -, hweights, hrecursive⟩ := verifyArgument_matches_recursion t proof
  have hne : ∀ x ∈ proof.roundChallenges t 4, x ≠ 0 :=
    drawRounds_ne_zero (fun _ _ => one_ne_zero) _ _
  obtain ⟨s, t', hscalars, hlength, hdigits⟩ := hweights (by decide) hne
  exact ⟨hfault u g g _, hshape 3 (by decide),
    ⟨s, t', hscalars, hlength, (hdigits 2 (by decide)).1, (hdigits 2 (by decide)).2⟩,
    (hrecursive u g g _ hne).1⟩

end Machine

end ConfidentialPayment
