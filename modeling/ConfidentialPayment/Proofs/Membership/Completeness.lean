import Mathlib.Algebra.Module.Basic
import ConfidentialPayment.Proofs.Equation
import ConfidentialPayment.Proofs.Membership.Equations
import ConfidentialPayment.Proofs.Suite.Ideal

/-!
# ConfidentialPayment.Proofs.Membership.Completeness

Which honest membership proofs are accepted.

The equations of the digits hold for every witness, at every challenge and for all draws. The
equation of the ring is the opening of the member times the third power of the challenge
(`Witness.ringEquation_isScaled`): it holds if the member opens (`Witness.equations_hold`), and for
no other witness unless the challenge is zero (`Witness.verify_proveWith_eq`).
-/

namespace ConfidentialPayment.Membership

variable {P : Type} [Suite P] {gens : Generators P}

namespace Witness

omit [Suite P] in
/-- A witness that is made consists of what it is made from. -/
theorem make_eq_ok {ring : List P} {index : ℕ} {blinding : Scalar} {w : Witness P}
    (h : make ring index blinding = .ok w) :
    w.ring = ring ∧ w.index = index ∧ w.blinding = blinding := by
  unfold make at h
  split_ifs at h
  cases h
  exact ⟨rfl, rfl, rfl⟩

/-- The secret member opens to zero with the blinding of the witness. -/
def Opens (gens : Generators P) (w : Witness P) : Prop :=
  w.ring[w.index]? = some (w.blinding • gens.blinding)

instance (w : Witness P) : Decidable (w.Opens gens) :=
  inferInstanceAs (Decidable (w.ring[w.index]? = some (w.blinding • gens.blinding)))

/-- What a proof is to show of the secret member. -/
def opening (gens : Generators P) (w : Witness P) : Equation P where
  statement := 3
  left := w.ring.getD w.index 0
  right := w.blinding • gens.blinding

/-- The opening equation of a witness says that it opens its ring member. -/
theorem opening_holds_iff (w : Witness P) : (w.opening gens).Holds ↔ w.Opens gens := by
  have hindex : w.index < w.ring.length := w.length_ring ▸ w.index_lt
  simp only [opening, Equation.Holds, Opens, List.getD_eq_getElem?_getD,
    List.getElem?_eq_getElem hindex, Option.getD_some, Option.some.injEq]

variable (w : Witness P) (d : Randomness) (x : Scalar)

omit [Suite P] in
/-- A digit of the index is its own square. -/
theorem bit_mul_self (j : ℕ) : w.bit j * w.bit j = w.bit j := Scalar.ofBit_mul_self _

/-- Responses have the shape that verifiers ask for. -/
theorem isWellFormed_respond (gens : Generators P) :
    (⟨w.commit gens d, w.respond d x⟩ : Proof P).isWellFormed := by
  simp [Proof.isWellFormed, commit, respond]

/-- What the prover returns has the shape that verifiers ask for. -/
theorem isWellFormed_prove (gens : Generators P) (tape : RandomSource) :
    ((w.prove gens).run tape).1.isWellFormed = true := w.isWellFormed_respond _ _ gens

variable [LawfulGroup P]

/-- The responses open the masked digits. -/
theorem valueEquation_holds (j : Fin digitCount) :
    (valueEquation gens x (w.commit gens d) (w.respond d x) j).Holds := by
  simp only [valueEquation, Equation.Holds, commit, respond, List.getD_eq_getElem?_getD,
    List.getElem?_ofFn, j.isLt, dite_true, Option.getD_some, Fin.eta, maskedValue,
    Generators.commitTo_eq]
  module

/-- A bit is its own square, so the masked value times its complement has no leading term. -/
theorem bitEquation_holds (j : Fin digitCount) :
    (bitEquation gens x (w.commit gens d) (w.respond d x) j).Holds := by
  have hbit := w.bit_mul_self j
  have hcross : (x - w.maskedValue d x j) * w.bit j + w.bit j * d.masks.get j = 0 := by
    unfold maskedValue
    linear_combination (-x) * hbit
  simp only [bitEquation, Equation.Holds, commit, respond, List.getD_eq_getElem?_getD,
    List.getElem?_ofFn, j.isLt, dite_true, Option.getD_some, Fin.eta, Generators.commitTo_eq]
  calc
    _ = ((x - w.maskedValue d x j) * w.bit j + w.bit j * d.masks.get j) •
          gens.get .privateKey +
        (d.bitBlindings.get j * (x - w.maskedValue d x j) + d.productBlindings.get j) •
          gens.blinding := by module
    _ = _ := by rw [hcross, zero_smul, zero_add]

/-- The equations of the digits do not look at the ring. -/
theorem digitEquations_hold :
    ∀ e ∈ (List.range digitCount).flatMap fun j =>
      [valueEquation gens x (w.commit gens d) (w.respond d x) j,
        bitEquation gens x (w.commit gens d) (w.respond d x) j], e.Holds := by
  intro e he
  obtain ⟨j, hj, he⟩ := List.mem_flatMap.mp he
  obtain rfl | rfl := List.mem_pair.mp he
  · exact w.valueEquation_holds d x ⟨j, List.mem_range.mp hj⟩
  · exact w.bitEquation_holds d x ⟨j, List.mem_range.mp hj⟩

/-- A commitment to a coefficient is the weighted sum of the ring, blinded. -/
theorem coefficients_commit :
    (w.commit gens d).coefficients = List.ofFn fun k : Fin digitCount =>
      w.coefficientSum d k + d.coefficientBlindings.get k • gens.blinding := by
  simp only [commit, weightedSum_append, weightedSum_zip, weightedSum_cons, weightedSum_nil,
    add_zero, List.map_map, coefficientSum]
  rfl

/-- The committed coefficients, weighted by the powers of the challenge. -/
theorem weigh_coefficients :
    weigh (x.powers digitCount) (w.commit gens d).coefficients =
      ∑ k ∈ Finset.range digitCount, x ^ k • w.coefficientSum d k +
        Scalar.dot d.coefficientBlindings.toList (x.powers digitCount) • gens.blinding := by
  have hdot : Scalar.dot d.coefficientBlindings.toList (x.powers digitCount) =
      ∑ k : Fin digitCount, x ^ (k : ℕ) * d.coefficientBlindings.get k := by
    rw [Scalar.dot_comm, Scalar.dot_eq_weigh, Scalar.powers_eq_ofFn, Scalar.toList_eq_ofFn,
      weigh_ofFn]
    rfl
  rw [coefficients_commit, Scalar.powers_eq_ofFn, weigh_ofFn, ← Scalar.powers_eq_ofFn, hdot,
    Finset.sum_smul, Finset.sum_range, ← Finset.sum_add_distrib]
  refine Finset.sum_congr rfl fun k _ => ?_
  rw [smul_add, mul_smul]

/-- The weighted ring less the committed coefficients is the secret member times the third power of
the challenge, with the blindings of the coefficients, which cancel against the response. -/
theorem ringEquation_isScaled :
    (ringEquation gens w.ring x (w.commit gens d) (w.respond d x)).IsScaled (x ^ digitCount)
      (w.opening gens) where
  statement := rfl
  residual := by
    simp only [ringEquation, opening, Equation.residual, weightedSum_append, weightedSum_zip,
      weigh_neg, weigh_coefficients, respond, weigh_ringWeights, Scalar.power_eq_pow]
    module

/-- Every equation holds at every challenge. -/
theorem equations_hold (h : w.Opens gens) :
    ∀ e ∈ equations gens w.ring x (w.commit gens d) (w.respond d x), e.Holds :=
  List.forall_mem_append.mpr ⟨w.digitEquations_hold d x, List.forall_mem_singleton.mpr
    ((w.ringEquation_isScaled d x).holds_iff.mpr (.inr (w.opening_holds_iff.mpr h)))⟩

/-- An honest proof passes if the challenge is zero, and else exactly if the member opens: no other
equation can fail. -/
theorem verify_proveWith_eq :
    (w.proveWith gens d).verify gens w.ring =
      if challenge w.ring (w.commit gens d) = 0 then .ok ()
      else Equation.checkAll .membership [w.opening gens] := by
  let x := challenge w.ring (w.commit gens d)
  have hshape : checkShape w.ring (w.proveWith gens d) = .ok () :=
    checkShape_eq_ok_iff.mpr ⟨w.length_ring, w.isWellFormed_respond d _ gens⟩
  calc
    _ = Equation.checkAll .membership
          (equations gens w.ring x (w.commit gens d) (w.respond d x)) := by
      rw [Proof.verify, hshape]
      rfl
    _ = Equation.checkAll .membership
          [ringEquation gens w.ring x (w.commit gens d) (w.respond d x)] :=
      Equation.checkAll_append_of_holds (w.digitEquations_hold d x)
    _ = if x ^ digitCount = 0 then .ok () else Equation.checkAll .membership [w.opening gens] :=
      Equation.checkAll_of_scaled (.cons (w.ringEquation_isScaled d x) .nil)
    _ = _ := by simp only [pow_eq_zero_iff (show digitCount ≠ 0 by decide), x]

/-- An honest proof of a member that opens is accepted. -/
theorem verify_proveWith (h : w.Opens gens) :
    (w.proveWith gens d).verify gens w.ring = .ok () := by
  have hopening : Equation.checkAll .membership [w.opening gens] = .ok () :=
    Equation.checkAll_eq_ok_iff.mpr (List.forall_mem_singleton.mpr (w.opening_holds_iff.mpr h))
  rw [verify_proveWith_eq, hopening, ite_self]

/-- If the witness opens its ring member, the proof is accepted, on every tape. -/
theorem prove_ensures (h : w.Opens gens) :
    (liftM (w.prove gens) : DrawExcept (Proof P)).Ensures fun proof =>
      proof.verify gens w.ring = .ok () :=
  .lift fun _ => w.verify_proveWith _ h

variable (gens) in
/-- Exact acceptance: a ring with an index into it and any blinding is a witness, and whatever its
prover draws, the proof is accepted exactly if the member at the index opens to zero with the
blinding or the challenge is zero. The only equation that can fail is that of the ring. -/
theorem verify_prove_eq_ok_iff {ring : List P} {index : ℕ} (hring : ring.length = ringSize)
    (hindex : index < ringSize) (blinding : Scalar) :
    ∃ w : Witness P, make ring index blinding = .ok w ∧ ∀ tape : RandomSource,
      let proof := ((w.prove gens).run tape).1
      (proof.verify gens ring = .ok () ↔ ring[index]? = some (blinding • gens.blinding) ∨
        challenge ring proof.commitment = 0) ∧
      (proof.verify gens ring ≠ .ok () →
        proof.verify gens ring = .error (.rejected .membership 3)) := by
  let w : Witness P := ⟨ring, index, blinding, hring, hindex⟩
  refine ⟨w, ?_, fun tape => ?_⟩
  · rw [make, dif_pos hring, dif_pos hindex]
  · intro proof
    have hverify : proof.verify gens ring = if challenge ring proof.commitment = 0 then .ok ()
        else if (w.opening gens).Holds then .ok () else .error (.rejected .membership 3) :=
      w.verify_proveWith_eq (drawRandomness.run tape).1
    have hopening : (w.opening gens).Holds ↔ ring[index]? = some (blinding • gens.blinding) :=
      w.opening_holds_iff
    rw [hverify, ← hopening]
    by_cases hzero : challenge ring proof.commitment = 0
    · simp [hzero]
    · simp [hzero]

end Witness

/-- A ring over the ideal generators in which exactly one member opens to zero. -/
def Witness.ideal : Witness Opening where
  ring := (List.range ringSize).map fun i => Generators.ideal.commitTo .privateKey (i - 5) 2
  index := 5
  blinding := 2
  length_ring := rfl
  index_lt := by decide

/-- The witness of the example opens its ring member. -/
theorem Witness.opens_ideal : Witness.ideal.Opens .ideal := by decide +kernel

/-- The sixth member of that ring can be opened, and a proof that opens the third one is refused. -/
theorem Witness.verify_prove_eq_ok_iff_ideal :
    let ring := Witness.ideal.ring
    let tape : RandomSource := ⟨fun _ => .replicate 64 0, 0⟩
    ring.length = ringSize ∧
    (∃ w, make ring 5 2 = .ok w ∧ (((w.prove .ideal).run tape).1).verify .ideal ring = .ok ()) ∧
    ∃ w, make ring 2 2 = .ok w ∧ (((w.prove .ideal).run tape).1).verify .ideal ring =
      .error (.rejected .membership 3) := by
  intro ring tape
  have hring : ring.length = ringSize := Witness.ideal.length_ring
  have hclosed : ring[2]? ≠ some ((2 : Scalar) • Generators.ideal.blinding) := by decide +kernel
  obtain ⟨w, hw, haccepts⟩ :=
    verify_prove_eq_ok_iff .ideal hring (show 5 < ringSize by decide) 2
  obtain ⟨w', hw', haccepts'⟩ :=
    verify_prove_eq_ok_iff .ideal hring (show 2 < ringSize by decide) 2
  refine ⟨hring, ⟨w, hw, (haccepts tape).1.mpr (.inl opens_ideal)⟩,
    w', hw', (haccepts' tape).2 fun h => ?_⟩
  obtain hopens | hzero := (haccepts' tape).1.mp h
  · exact hclosed hopens
  · exact Scalar.one_ne_zero' hzero

end ConfidentialPayment.Membership
