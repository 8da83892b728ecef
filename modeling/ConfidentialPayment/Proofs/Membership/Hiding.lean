import ConfidentialPayment.Proofs.Membership.Completeness

/-!
# ConfidentialPayment.Proofs.Membership.Hiding

Membership proofs hide the index perfectly.

When all points are multiples of the blinding generator, a commitment is a single multiple of it,
and every opening of it can be changed into one to other values by moving the difference into the
blinding. `shift` does this for all draws of a proof at once, so that another witness of the same
ring makes the same commitment and the same masked values (`commit_shift`, `maskedValue_shift`).
The rest of a response is determined by the equations (`response_eq_of_equations`), so the two
proofs are equal. Shifting back undoes a shift, so the draws correspond one to one.
-/

namespace ConfidentialPayment.Membership

variable {P : Type} [Suite P] [LawfulGroup P] {gens : Generators P}

attribute [ext] Commitment Response Randomness

/-! ## Responses -/

/-- Lists of one length with the same entries are the same. -/
theorem ext_getD {xs ys : List Scalar} (hlen : xs.length = ys.length)
    (h : ∀ j < xs.length, xs.getD j 0 = ys.getD j 0) : xs = ys := by
  refine List.ext_getElem hlen fun j hj hj' => ?_
  simpa [hj, hj'] using h j hj

/-- The equations and the masked values determine a response. -/
theorem response_eq_of_equations
    (hgens : Function.Injective fun a : Scalar => a • gens.blinding) {ring : List P} {x : Scalar}
    {c : Commitment P} {r r' : Response} (hvalues : r.values = r'.values)
    (hshape : (⟨c, r⟩ : Proof P).isWellFormed) (hshape' : (⟨c, r'⟩ : Proof P).isWellFormed)
    (h : ∀ e ∈ equations gens ring x c r, e.Holds)
    (h' : ∀ e ∈ equations gens ring x c r', e.Holds) : r = r' := by
  obtain ⟨hdigits, hring⟩ := forall_equations_iff.mp h
  obtain ⟨hdigits', hring'⟩ := forall_equations_iff.mp h'
  simp only [Proof.isWellFormed, Bool.and_eq_true, decide_eq_true_eq] at hshape hshape'
  obtain ⟨⟨-, hmask⟩, hproduct⟩ := hshape
  obtain ⟨⟨-, hmask'⟩, hproduct'⟩ := hshape'
  have hmasks : r.maskOpenings = r'.maskOpenings := by
    refine ext_getD (hmask.trans hmask'.symm) fun j hj => hgens ?_
    have e : gens.commitTo .privateKey (r.values.getD j 0) (r.maskOpenings.getD j 0) =
        gens.commitTo .privateKey (r'.values.getD j 0) (r'.maskOpenings.getD j 0) :=
      (hdigits j (hmask ▸ hj)).1.symm.trans (hdigits' j (hmask ▸ hj)).1
    rw [hvalues, Generators.commitTo_eq, Generators.commitTo_eq] at e
    exact add_left_cancel e
  have hproducts : r.productOpenings = r'.productOpenings := by
    refine ext_getD (hproduct.trans hproduct'.symm) fun j hj => hgens ?_
    refine (hdigits j (hproduct ▸ hj)).2.symm.trans ?_
    rw [bitEquation, hvalues]
    exact (hdigits' j (hproduct ▸ hj)).2
  have hopening : r.ringOpening = r'.ringOpening := by
    refine hgens (hring.symm.trans ?_)
    rw [ringEquation, hvalues]
    exact hring'
  exact Response.ext hvalues hmasks hproducts hopening

/-! ## Shifts -/

/-- The draws with which another witness answers the challenge `x` like the first one does with
`d`. What the values change by goes into the blindings; `log` says which multiple of the blinding
generator a point is. -/
def shift (gens : Generators P) (log : P → Scalar) (w w' : Witness P) (x : Scalar)
    (d : Randomness) : Randomness :=
  let key := log gens.privateKey
  let masks := .ofFn fun j => d.masks.get j + (w.bit j - w'.bit j) * x
  { bitBlindings := .ofFn fun j => d.bitBlindings.get j + (w.bit j - w'.bit j) * key
    masks
    maskBlindings := .ofFn fun j => d.maskBlindings.get j + (d.masks.get j - masks.get j) * key
    productBlindings := .ofFn fun j =>
      d.productBlindings.get j + (w.bit j * d.masks.get j - w'.bit j * masks.get j) * key
    coefficientBlindings := .ofFn fun k => d.coefficientBlindings.get k +
      log (w.coefficientSum d k - w'.coefficientSum { d with masks } k) }

namespace Witness

/-- Shifted masks make up for the difference of the digits. -/
theorem maskedValue_shift (log : P → Scalar) (w w' : Witness P)
    (x : Scalar) (d : Randomness) :
    w'.maskedValue (shift gens log w w' x d) x = w.maskedValue d x := by
  funext j
  simp only [maskedValue, shift, Scalar.get_ofFn]
  ring

/-- The weighted ring depends on the masks only. -/
theorem coefficientSum_congr (w : Witness P) {d d' : Randomness} (h : d.masks = d'.masks)
    (k : ℕ) : w.coefficientSum d k = w.coefficientSum d' k := by
  have hfactor : w.factor d = w.factor d' := by
    funext i j
    rw [factor, factor, h]
  simp only [coefficientSum, polynomial, hfactor]

/-- Shifted blindings make up for the difference of the weighted rings. -/
theorem coefficientBlindings_shift (log : P → Scalar) (w w' : Witness P) (x : Scalar)
    (d : Randomness) (k : Fin digitCount) :
    (shift gens log w w' x d).coefficientBlindings.get k = d.coefficientBlindings.get k +
      log (w.coefficientSum d k - w'.coefficientSum (shift gens log w w' x d) k) :=
  -- The weighted ring of the other witness looks at the masks of its draws only.
  Scalar.get_ofFn _ k

end Witness

section Logarithm

variable {log : P → Scalar} (hlog : ∀ p, log p • gens.blinding = p)
include hlog

/-- Another witness makes the same commitment with shifted draws. -/
theorem commit_shift {w w' : Witness P} (x : Scalar) (d : Randomness) :
    w'.commit gens (shift gens log w w' x d) = w.commit gens d := by
  refine Commitment.ext ?bits ?masks ?products ?coefficients
  case bits | masks | products =>
    have hkey : log gens.privateKey • gens.blinding = gens.get .privateKey := hlog _
    simp only [Witness.commit, shift, Scalar.get_ofFn, gens.commitTo_shift hkey]
  case coefficients =>
    rw [Witness.coefficients_commit, Witness.coefficients_commit]
    refine congrArg List.ofFn (funext fun k => ?_)
    rw [Witness.coefficientBlindings_shift, add_smul, hlog]
    abel

/-- Shifting back undoes a shift. -/
theorem shift_shift (hgens : Function.Injective fun a : Scalar => a • gens.blinding)
    (w w' : Witness P) (x : Scalar) (d : Randomness) :
    shift gens log w' w x (shift gens log w w' x d) = d := by
  have hmasks : (shift gens log w' w x (shift gens log w w' x d)).masks = d.masks := by
    refine Scalar.vector_ext fun j => ?_
    simp only [shift, Scalar.get_ofFn]
    ring
  have hopposite (p p' : P) : log (p - p') + log (p' - p) = 0 := by
    refine hgens ?_
    simp only [add_smul, hlog, zero_smul]
    abel
  refine Randomness.ext ?bits hmasks ?masks ?products ?coefficients
  case bits | masks | products =>
    refine Scalar.vector_ext fun j => ?_
    simp only [shift, Scalar.get_ofFn]
    ring
  case coefficients =>
    refine Scalar.vector_ext fun k => ?_
    rw [Witness.coefficientBlindings_shift, Witness.coefficientBlindings_shift,
      w.coefficientSum_congr hmasks, add_assoc, hopposite, add_zero]

end Logarithm

/-! ## Equal proofs -/

/-- The proofs of two witnesses of one ring are equal, draw for draw. -/
theorem exists_equiv_proveWith (hgens : Function.Bijective fun a : Scalar => a • gens.blinding)
    {w w' : Witness P} (hring : w.ring = w'.ring) (h : w.Opens gens) (h' : w'.Opens gens) :
    ∃ φ : Randomness ≃ Randomness, ∀ d, w.proveWith gens d = w'.proveWith gens (φ d) := by
  obtain ⟨log, hlog⟩ := hgens.surjective.hasRightInverse
  let x (w : Witness P) (d : Randomness) := challenge w.ring (w.commit gens d)
  have hx {w w' : Witness P} (hring : w.ring = w'.ring) (d : Randomness) :
      x w' (shift gens log w w' (x w d) d) = x w d := by
    simp only [x, commit_shift hlog, hring]
  refine ⟨⟨fun d => shift gens log w w' (x w d) d, fun d => shift gens log w' w (x w' d) d,
    fun d => ?_, fun d => ?_⟩, fun d => ?_⟩
  · simp only [hx hring, shift_shift hlog hgens.injective]
  · simp only [hx hring.symm, shift_shift hlog hgens.injective]
  · have hcommit : w'.commit gens (shift gens log w w' (x w d) d) = w.commit gens d :=
      commit_shift hlog (x w d) d
    have hvalues : w'.maskedValue (shift gens log w w' (x w d) d) (x w d) =
        w.maskedValue d (x w d) := w.maskedValue_shift log w' (x w d) d
    have hrespond : w.respond d (x w d) =
        w'.respond (shift gens log w w' (x w d) d) (x w d) :=
      response_eq_of_equations hgens.injective (congrArg List.ofFn hvalues.symm)
        (w.isWellFormed_respond d (x w d) gens) (hcommit ▸ w'.isWellFormed_respond _ (x w d) gens)
        (w.equations_hold d (x w d) h)
        (hcommit ▸ hring ▸ w'.equations_hold _ (x w d) h')
    calc
      w.proveWith gens d = ⟨w.commit gens d, w.respond d (x w d)⟩ := rfl
      _ = ⟨w'.commit gens (shift gens log w w' (x w d) d),
            w'.respond (shift gens log w w' (x w d) d)
              (x w' (shift gens log w w' (x w d) d))⟩ := by
          rw [hcommit, hrespond, hx hring]
      _ = w'.proveWith gens (shift gens log w w' (x w d) d) := rfl

/-- A ring on the line with a witness for each of its members. -/
noncomputable def Witness.line (index : Fin ringSize) : Witness (Coordinates Unit) where
  ring := List.ofFn fun i : Fin ringSize => ((i : ℕ) : Scalar) • Generators.line.blinding
  index := index
  blinding := (index : ℕ)
  length_ring := List.length_ofFn
  index_lt := index.isLt

/-- The witnesses of the example open their ring members. -/
theorem Witness.opens_line (index : Fin ringSize) : (Witness.line index).Opens .line := by
  rw [Opens, line, List.getElem?_ofFn, dif_pos index.isLt]

/-- On the line the third and the sixth member of a ring are spent by the same proofs. -/
theorem exists_equiv_proveWith_line :
    let w := Witness.line ⟨2, by decide⟩
    let w' := Witness.line ⟨5, by decide⟩
    ∃ φ : Randomness ≃ Randomness, ∀ d,
      w.proveWith Generators.line d = w'.proveWith Generators.line (φ d) :=
  exists_equiv_proveWith Generators.bijective_line rfl (Witness.opens_line ⟨2, by decide⟩)
    (Witness.opens_line ⟨5, by decide⟩)

end ConfidentialPayment.Membership
