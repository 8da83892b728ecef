import Mathlib.Algebra.Module.Basic
import ConfidentialPayment.InnerProduct.Recursive
import ConfidentialPayment.Proofs.InnerProduct.Completeness

/-!
# ConfidentialPayment.Proofs.InnerProduct.Recursive

One equation says what the rounds say.

Joining the halves of the bases by a challenge is weighing them with all challenges but that one
(`weigh_foldWeights_foldHalves`), and taking the cross terms into the commitment is bringing them to
the other side. So the equation of a verifier is that of the joined bases with the challenges that
are left, round by round (`unfolds_cons_iff`), down to a single base on either side.
-/

namespace ConfidentialPayment.InnerProduct

variable {P : Type} [Suite P]

/-! ## Shapes -/

section

variable {t t' : Transcript} {u : P} {g h : List P} {factors challenges : List Scalar}
  {proof : Proof P}

/-- Generators and factors that do not match are refused before anything is computed. -/
theorem Proof.verify_of_lengths (hlengths : h.length ≠ g.length ∨ factors.length ≠ g.length) :
    proof.verify t u g h factors =
      .error (.lengthMismatch g.length (min h.length factors.length)) := by
  rw [verify, if_pos hlengths]
  rfl

/-- Without challenges there is no decision. -/
theorem Proof.verify_of_challenges {cause : Error}
    (hlengths : ¬ (h.length ≠ g.length ∨ factors.length ≠ g.length))
    (hchallenges : proof.challenges t g.length = .error cause) :
    proof.verify t u g h factors = .error cause := by
  rw [verify, if_neg hlengths, hchallenges]
  rfl

/-- Where there are challenges, they are the ones of the rounds, and as many as it takes to halve
the bases down to a single one. -/
theorem Proof.of_challenges_eq_ok {n : ℕ}
    (hchallenges : proof.challenges t n = .ok (challenges, t')) :
    challenges = proof.roundChallenges t n ∧ challenges.length = proof.rounds.length ∧
      n = 2 ^ challenges.length := by
  unfold Proof.challenges at hchallenges
  split at hchallenges
  · next hshape =>
    have hdrawn : challenges = proof.roundChallenges t n :=
      (congrArg Prod.fst (Except.ok.inj hchallenges)).symm
    have hcount : challenges.length = proof.rounds.length := by
      rw [hdrawn, roundChallenges, length_drawRounds]
    rw [hcount]
    exact ⟨hdrawn, rfl, of_decide_eq_true (Bool.and_eq_true_iff.mp hshape).2⟩
  · cases hchallenges

end

/-! ## Halving -/

/-- Folding halves the length of a list. -/
@[simp] theorem length_foldHalves (c c' : Scalar) {ps : List P} {n : ℕ}
    (h : ps.length = n + n) : (foldHalves c c' ps).length = n := by
  have hhalf : (n + n) / 2 = n := by omega
  simp [foldHalves, h, hhalf]

variable [LawfulGroup P] {u : P}

instance {g h : List P} {c : P} {xs : List Scalar} {rounds : List (Round P)} {a b : Scalar} :
    Decidable (Unfolds u g h c xs rounds a b) := Suite.decEq _ _

/-- The weights join the bases like a round does, in the order of one list and in the opposite
order of the other. -/
theorem weigh_foldWeights_foldHalves {x : Scalar} (hx : x ≠ 0) {xs : List Scalar} {ps : List P}
    (hps : ps.length = 2 ^ xs.length + 2 ^ xs.length) :
    weigh (foldWeights (x :: xs)) ps = weigh (foldWeights xs) (foldHalves x⁻¹ x ps) ∧
      weigh (foldWeights (x :: xs)).reverse ps =
        weigh (foldWeights xs).reverse (foldHalves x x⁻¹ ps) := by
  have hhalf : ps.length / 2 = 2 ^ xs.length := by omega
  simp only [foldWeights_cons hx, List.reverse_append, ← List.map_reverse, foldHalves, hhalf]
  exact ⟨weigh_join _ _ (length_foldWeights xs) hps,
    weigh_join _ _ (by rw [List.length_reverse, length_foldWeights]) hps⟩

/-- The equation of all rounds is that of the later rounds over the joined bases, with the first
cross terms in the commitment. -/
theorem unfolds_cons_iff {g h : List P} {c : P} {x : Scalar} (hx : x ≠ 0) {xs : List Scalar}
    (hg : g.length = 2 ^ xs.length + 2 ^ xs.length)
    (hh : h.length = 2 ^ xs.length + 2 ^ xs.length) {r : Round P} {rounds : List (Round P)}
    {a b : Scalar} :
    Unfolds u g h c (x :: xs) (r :: rounds) a b ↔
      Unfolds u (foldHalves x⁻¹ x g) (foldHalves x x⁻¹ h)
        (c + (x * x) • r.left + (x⁻¹ * x⁻¹) • r.right) xs rounds a b := by
  rw [Unfolds, Unfolds, (weigh_foldWeights_foldHalves hx hg).1,
    (weigh_foldWeights_foldHalves hx hh).2]
  simp only [List.map_cons, weigh_cons]
  refine Eq.congr_right ?_
  abel

/-! ## Round by round -/

/-- Round by round a verifier comes to the decision of the equation and to its transcript. -/
theorem verifyRounds_eq (a b : Scalar) {rounds : List (Round P)} {t : Transcript}
    {g h : List P} {c : P} (hg : g.length = 2 ^ rounds.length)
    (hh : h.length = 2 ^ rounds.length) (hxs : ∀ x ∈ (drawRounds t rounds).1, x ≠ 0) :
    verifyRounds u a b t rounds g h c =
      if Unfolds u g h c (drawRounds t rounds).1 rounds a b then .ok (drawRounds t rounds).2
      else .error (.rejected .innerProduct 1) := by
  induction rounds generalizing t g h c with
  | nil =>
    obtain ⟨g, rfl⟩ := List.length_eq_one_iff.mp hg
    obtain ⟨h, rfl⟩ := List.length_eq_one_iff.mp hh
    have hiff : Unfolds u [g] [h] c [] [] a b ↔ c = a • g + b • h + (a * b) • u := by
      simp [Unfolds, foldWeights, eq_comm]
    simp only [verifyRounds, drawRounds, hiff]
  | cons r rounds ih =>
    rcases hround : drawRound t r with ⟨x, t₁⟩
    rcases hrest : drawRounds t₁ rounds with ⟨xs, t₂⟩
    have hlength : xs.length = rounds.length := by
      rw [← length_drawRounds t₁ rounds, hrest]
    simp only [drawRounds, hround, hrest] at hxs ⊢
    obtain ⟨hx, hxs⟩ := List.forall_mem_cons.mp hxs
    rw [List.length_cons, Nat.pow_succ, mul_two] at hg hh
    have hlater := ih (t := t₁) (c := c + (x * x) • r.left + (x⁻¹ * x⁻¹) • r.right)
      (length_foldHalves x⁻¹ x hg) (length_foldHalves x x⁻¹ hh) (hrest ▸ hxs)
    rw [hrest] at hlater
    rw [← hlength] at hg hh
    simp only [verifyRounds, hround, Scalar.inverse_eq_inv, hlater, unfolds_cons_iff hx hg hh]

/-- The equation decides as the rounds do, also where a proof does not fit its bases. -/
theorem Proof.verify_eq_verifyRecursively {t : Transcript} {g h : List P} {factors : List Scalar}
    {proof : Proof P} (hxs : ∀ x ∈ proof.roundChallenges t g.length, x ≠ 0) :
    proof.verify t u g h factors = proof.verifyRecursively t u g h factors := by
  unfold verifyRecursively
  dsimp only
  by_cases hlengths : h.length ≠ g.length ∨ factors.length ≠ g.length
  · rw [if_pos hlengths, verify_of_lengths hlengths]
  · obtain ⟨hh, hfactors⟩ := not_or.mp hlengths
    rw [not_not] at hh hfactors
    rw [if_neg hlengths]
    by_cases hshape : (proof.isWellFormed && decide (g.length = 2 ^ proof.rounds.length)) = true
    · have hchallenges : proof.challenges t g.length = .ok
          (proof.roundChallenges t g.length,
            (drawRounds (openArgument t g.length proof.commitment) proof.rounds).2) := if_pos hshape
      have hg : g.length = 2 ^ proof.rounds.length :=
        of_decide_eq_true (Bool.and_eq_true_iff.mp hshape).2
      have hrescaled : (List.zipWith (· • ·) factors h).length = 2 ^ proof.rounds.length := by
        rw [List.length_zipWith, hfactors, hh, min_self, hg]
      rw [if_pos hshape, verify_eq hh hfactors hchallenges, verifyRounds_eq _ _ hg hrescaled hxs]
      simp only [equation_holds_iff]
      rfl
    · have hchallenges : proof.challenges t g.length = .error (.rejected .innerProduct 0) :=
        if_neg hshape
      rw [if_neg hshape, verify_of_challenges hlengths hchallenges]

end ConfidentialPayment.InnerProduct
