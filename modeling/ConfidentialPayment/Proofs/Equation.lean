import Mathlib.Algebra.Module.Basic
import ConfidentialPayment.Equation
import ConfidentialPayment.Proofs.RandomSource
import ConfidentialPayment.Proofs.Suite.VectorSpace

/-!
# ConfidentialPayment.Proofs.Equation

What checking equations says about each of them, one after the other or all at once.

1. The answers of an honest prover make every equation a multiple of the relation that it is about
   (`IsScaled`). A verifier then reports the first relation that fails, unless the factor is zero
   (`checkAll_of_scaled`).
2. A batch verifier weighs the residuals of a list of equations and compares the sum with zero. The
   sum vanishes for all weights if the equations hold (`weigh_residuals_eq_zero`). If one of them
   fails, then the other weights leave at most one value of its weight for which the sum still
   vanishes (`getElem?_eq_of_weigh_residuals`), so a verifier that draws the weights accepts for at
   most one draw of it (`getElem?_scalars_eq_of_accepts`).
-/

namespace ConfidentialPayment

/-! ## Changing one weight -/

section Weigh

variable {M : Type} [AddCommGroup M] [Module Scalar M]

/-- Weights of nothing add up to nothing. -/
theorem weigh_eq_zero (xs : List Scalar) {ms : List M} (h : ∀ m ∈ ms, m = 0) :
    weigh xs ms = 0 := by
  induction xs generalizing ms with
  | nil => rfl
  | cons x xs ih =>
    cases ms with
    | nil => rfl
    | cons m ms =>
      obtain ⟨hm, hms⟩ := List.forall_mem_cons.mp h
      rw [weigh_cons, hm, ih hms, smul_zero, zero_add]

/-- A sum with one weight replaced. -/
theorem weigh_set {xs : List Scalar} {ms : List M} {k : ℕ} (hk : k < xs.length)
    (hk' : k < ms.length) (x : Scalar) :
    weigh (xs.set k x) ms = weigh xs ms + (x - xs[k]) • ms[k] := by
  induction k generalizing xs ms with
  | zero =>
    obtain ⟨x', xs, rfl⟩ := List.exists_cons_of_length_pos hk
    obtain ⟨m, ms, rfl⟩ := List.exists_cons_of_length_pos hk'
    simp only [List.set_cons_zero, weigh_cons, List.getElem_cons_zero]
    module
  | succ k ih =>
    obtain ⟨x', xs, rfl⟩ := List.exists_cons_of_length_pos (Nat.zero_lt_of_lt hk)
    obtain ⟨m, ms, rfl⟩ := List.exists_cons_of_length_pos (Nat.zero_lt_of_lt hk')
    rw [List.set_cons_succ, weigh_cons, ih (Nat.lt_of_succ_lt_succ hk)
      (Nat.lt_of_succ_lt_succ hk'), weigh_cons]
    simp only [List.getElem_cons_succ, add_assoc]

/-- The weight of a point that is not zero is known from the sum and the other weights. -/
theorem getElem?_eq_of_weigh_eq {xs ys : List Scalar} {ms : List M} {k : ℕ}
    (hxs : xs.length = ms.length) (hys : ys.length = ms.length) (hk : k < ms.length)
    (hne : ms[k] ≠ 0) (hothers : ∀ i, i ≠ k → xs[i]? = ys[i]?)
    (h : weigh xs ms = weigh ys ms) : xs[k]? = ys[k]? := by
  have hkx : k < xs.length := hxs ▸ hk
  have hky : k < ys.length := hys ▸ hk
  have hset : ys = xs.set k ys[k] := by
    refine List.ext_getElem? fun i => ?_
    by_cases hi : i = k
    · subst hi
      rw [List.getElem?_set_self hkx, List.getElem?_eq_getElem hky]
    · rw [List.getElem?_set_ne (Ne.symm hi), hothers i hi]
  have hzero : (ys[k] - xs[k]) • ms[k] = 0 := by
    have hreplaced := weigh_set hkx hk ys[k]
    rw [← hset, ← h] at hreplaced
    exact left_eq_add.mp hreplaced
  rcases smul_eq_zero.mp hzero with hweight | hpoint
  · rw [List.getElem?_eq_getElem hkx, List.getElem?_eq_getElem hky, sub_eq_zero.mp hweight]
  · exact absurd hpoint hne

end Weigh

namespace Equation

variable {P : Type} [Suite P] [LawfulGroup P]

/-- An equation holds exactly if nothing is left over. -/
theorem residual_eq_zero_iff {e : Equation P} : e.residual = 0 ↔ e.Holds := sub_eq_zero

/-! ## Checks in order -/

omit [LawfulGroup P] in
/-- Equations that hold do not show in the result of a check. -/
theorem checkAll_append_of_holds {kind : ProofKind} {es es' : List (Equation P)}
    (h : ∀ e ∈ es, e.Holds) : checkAll kind (es ++ es') = checkAll kind es' := by
  induction es with
  | nil => rfl
  | cons e es ih =>
    obtain ⟨he, hes⟩ := List.forall_mem_cons.mp h
    rw [List.cons_append, checkAll, if_pos he, ih hes]

omit [LawfulGroup P] in
/-- Checking equations fails with the number of a statement and for no other cause. -/
theorem exists_rejected_of_checkAll {kind : ProofKind} {es : List (Equation P)} {cause : Error}
    (h : checkAll kind es = .error cause) : ∃ statement, cause = .rejected kind statement := by
  induction es with
  | nil => cases h
  | cons e es ih =>
    rw [checkAll] at h
    split at h
    · exact ih h
    · exact ⟨e.statement, (Except.error.inj h).symm⟩

/-- An equation is another one times a scalar, under the same statement. -/
structure IsScaled (factor : Scalar) (e relation : Equation P) : Prop where
  statement : e.statement = relation.statement
  residual : e.residual = factor • relation.residual

/-- A scaled equation holds trivially if the factor is zero, and else if what is scaled holds. -/
theorem IsScaled.holds_iff {factor : Scalar} {e relation : Equation P}
    (h : e.IsScaled factor relation) : e.Holds ↔ factor = 0 ∨ relation.Holds := by
  rw [← residual_eq_zero_iff, h.residual, smul_eq_zero, residual_eq_zero_iff]

/-- Scaling keeps equations that hold. -/
theorem forall_holds_of_scaled {factor : Scalar} {es relations : List (Equation P)}
    (h : List.Forall₂ (IsScaled factor) es relations) (hrelations : ∀ r ∈ relations, r.Holds) :
    ∀ e ∈ es, e.Holds := by
  induction h with
  | nil => exact List.forall_mem_nil _
  | cons he _ ih =>
    obtain ⟨hrelation, hrelations⟩ := List.forall_mem_cons.mp hrelations
    exact List.forall_mem_cons.mpr ⟨he.holds_iff.mpr (.inr hrelation), ih hrelations⟩

/-- Equations that are relations times a scalar fail where the relations do, and pass if the scalar
is zero. -/
theorem checkAll_of_scaled {kind : ProofKind} {factor : Scalar} {es relations : List (Equation P)}
    (h : List.Forall₂ (IsScaled factor) es relations) :
    checkAll kind es = if factor = 0 then .ok () else checkAll kind relations := by
  induction h with
  | nil => simp [checkAll]
  | @cons e relation es relations he _ ih =>
    rw [checkAll, checkAll, ih, he.statement]
    by_cases hfactor : factor = 0
    · simp [he.holds_iff, hfactor]
    · simp [he.holds_iff, hfactor]

/-! ## Weighted residuals -/

/-- The residuals of equations that hold sum to zero under all weights. -/
theorem weigh_residuals_eq_zero {es : List (Equation P)} (h : ∀ e ∈ es, e.Holds)
    (weights : List Scalar) : weigh weights (es.map residual) = 0 := by
  refine weigh_eq_zero weights fun m hm => ?_
  obtain ⟨e, he, rfl⟩ := List.mem_map.mp hm
  exact residual_eq_zero_iff.mpr (h e he)

/-- If an equation fails, the other weights leave at most one value for its own weight with which
the residuals sum to zero. -/
theorem getElem?_eq_of_weigh_residuals {es : List (Equation P)} {weights weights' : List Scalar}
    {k : ℕ} (hweights : weights.length = es.length) (hweights' : weights'.length = es.length)
    (hk : k < es.length) (hfails : ¬ es[k].Holds)
    (hothers : ∀ i, i ≠ k → weights[i]? = weights'[i]?)
    (h : weigh weights (es.map residual) = 0) (h' : weigh weights' (es.map residual) = 0) :
    weights[k]? = weights'[k]? := by
  have hlength : (es.map residual).length = es.length := List.length_map _
  refine getElem?_eq_of_weigh_eq (hweights.trans hlength.symm) (hweights'.trans hlength.symm)
    (hlength ▸ hk) ?_ hothers (h.trans h'.symm)
  rw [List.getElem_map]
  exact mt residual_eq_zero_iff.mp hfails

/-- Where the next scalars of a tape are the weights and their sum decides, tapes that differ in
the weight of a failing equation only are not both accepted. -/
theorem getElem?_scalars_eq_of_accepts {es : List (Equation P)} {accepts : RandomSource → Prop}
    (h : ∀ tape, accepts tape ↔ weigh (tape.scalars es.length) (es.map residual) = 0) (k : ℕ)
    (hk : k < es.length) (hfails : ¬ es[k].Holds) (tape tape' : RandomSource)
    (hothers : ∀ i, i ≠ k → (tape.scalars es.length)[i]? = (tape'.scalars es.length)[i]?)
    (htape : accepts tape) (htape' : accepts tape') :
    (tape.scalars es.length)[k]? = (tape'.scalars es.length)[k]? :=
  getElem?_eq_of_weigh_residuals (RandomSource.length_scalars ..) (RandomSource.length_scalars ..)
    hk hfails hothers ((h tape).mp htape) ((h tape').mp htape')

end Equation

end ConfidentialPayment
