import ConfidentialPayment.Proofs.Membership.Completeness
import ConfidentialPayment.Proofs.Suite.Interpolation

/-!
# ConfidentialPayment.Proofs.Membership.Soundness

Special soundness of membership proofs: from the answers of one commitment to four challenges an
extractor computes which member of the ring opens to zero, and its blinding.

1. For a single digit two answers open the commitments to the digit and its mask, so every answer
   is `l * x + a`. The second equation then says that `l` is a bit (`exists_bit_of_equations`).
2. With the digits known, all answers are those of one index and one choice of masks, so the
   weighted ring is a polynomial of degree three whose leading coefficient is a single member.
3. Four values fix this polynomial, so the member is the multiple of the blinding generator that
   the four ring openings interpolate.
-/

namespace ConfidentialPayment.Membership

variable {P : Type} [Suite P] [LawfulGroup P] {gens : Generators P}

/-! ## The extractor -/

/-- The digit that two answers to different challenges give away. -/
def extractedDigit (x x' : Scalar) (r r' : Response) (j : ℕ) : Scalar :=
  (r.values.getD j 0 - r'.values.getD j 0) / (x - x')

/-- The blinding of the member that four answers give away. -/
noncomputable def extractedBlinding (x : Fin (digitCount + 1) → Scalar)
    (r : Fin (digitCount + 1) → Response) : Scalar :=
  leadingInterpolated x fun m => (r m).ringOpening

/-! ## Digits -/

/-- Openings of a commitment to a private key are unique. -/
theorem commitTo_privateKey_injective
    (hgens : LinearIndependent Scalar ![gens.privateKey, gens.blinding]) {l s l' s' : Scalar}
    (h : gens.commitTo .privateKey l s = gens.commitTo .privateKey l' s') : l = l' ∧ s = s' := by
  rw [Generators.commitTo_eq, Generators.commitTo_eq] at h
  exact hgens.eq_of_pair h

/-- The difference of two answers opens the commitment to the digit. -/
theorem exists_opening_of_values {x x' f f' s s' : Scalar} (hne : x ≠ x') {bit mask : P}
    (h : x • bit + mask = gens.commitTo .privateKey f s)
    (h' : x' • bit + mask = gens.commitTo .privateKey f' s') :
    ∃ l u, bit = gens.commitTo .privateKey l u := by
  refine ⟨(x - x')⁻¹ * (f - f'), (x - x')⁻¹ * (s - s'), ?_⟩
  rw [eq_slope_smul hne h h', Generators.commitTo_mul, Generators.commitTo_sub]

/-- The answers for one digit lie on a line, whose slope the commitment to the digit opens to. -/
theorem value_sub_value_eq
    (hgens : LinearIndependent Scalar ![gens.privateKey, gens.blinding])
    {l u x x' f f' s s' : Scalar} {mask : P}
    (h : x • gens.commitTo .privateKey l u + mask = gens.commitTo .privateKey f s)
    (h' : x' • gens.commitTo .privateKey l u + mask = gens.commitTo .privateKey f' s') :
    f - f' = (x - x') * l := by
  have hopenings : gens.commitTo .privateKey (f - f') (s - s') =
      gens.commitTo .privateKey ((x - x') * l) ((x - x') * u) :=
    calc
      _ = x • gens.commitTo .privateKey l u + mask -
          (x' • gens.commitTo .privateKey l u + mask) := by
        rw [Generators.commitTo_sub, h, h']
      _ = (x - x') • gens.commitTo .privateKey l u := by module
      _ = _ := (Generators.commitTo_mul ..).symm
  exact (commitTo_privateKey_injective hgens hopenings).1

/-- The product of a digit and its complement has no part outside the blinding. -/
theorem complement_sub_complement_mul_eq_zero
    (hgens : LinearIndependent Scalar ![gens.privateKey, gens.blinding])
    {l u x x' f f' t t' : Scalar} {product : P}
    (h : (x - f) • gens.commitTo .privateKey l u + product = t • gens.blinding)
    (h' : (x' - f') • gens.commitTo .privateKey l u + product = t' • gens.blinding) :
    (x - f - (x' - f')) * l = 0 := by
  have hopenings : gens.commitTo .privateKey ((x - f - (x' - f')) * l)
      ((x - f - (x' - f')) * u) = gens.commitTo .privateKey 0 (t - t') :=
    calc
      _ = (x - f) • gens.commitTo .privateKey l u + product -
          ((x' - f') • gens.commitTo .privateKey l u + product) := by
        rw [Generators.commitTo_mul]
        module
      _ = _ := by
        rw [h, h', Generators.commitTo_eq]
        module
  exact (commitTo_privateKey_injective hgens hopenings).1

/-- All answers for one digit lie on one line, and its slope is a bit. -/
theorem exists_bit_of_equations
    (hgens : LinearIndependent Scalar ![gens.privateKey, gens.blinding]) {n : ℕ}
    {x f s t : Fin (n + 2) → Scalar} (hx : Function.Injective x) {bit mask product : P}
    (hvalue : ∀ m, x m • bit + mask = gens.commitTo .privateKey (f m) (s m))
    (hbit : ∀ m, (x m - f m) • bit + product = t m • gens.blinding) :
    ∃ b : Bool, ∃ a, ∀ m, f m = .ofBit b * x m + a := by
  have hne : x 0 ≠ x 1 := hx.ne Fin.zero_ne_one
  obtain ⟨l, u, rfl⟩ := exists_opening_of_values hne (hvalue 0) (hvalue 1)
  have hline (m : Fin (n + 2)) : f m - f 0 = (x m - x 0) * l :=
    value_sub_value_eq hgens (hvalue m) (hvalue 0)
  have hslope : (x 0 - x 1) * (l * (1 - l)) = 0 := by
    linear_combination complement_sub_complement_mul_eq_zero hgens (hbit 0) (hbit 1) - l * hline 1
  obtain ⟨b, rfl⟩ := Scalar.bit_of_mul_self
    ((mul_eq_zero.mp hslope).resolve_left (sub_ne_zero.mpr hne))
  exact ⟨b, f 0 - .ofBit b * x 0, fun m => by linear_combination hline m⟩

/-! ## Members -/

/-- The witness that the extracted digits belong to; its blinding is not known yet. -/
def extractedWitness (ring : List P) (hring : ring.length = ringSize)
    (bits : Fin digitCount → Bool) : Witness P :=
  ⟨ring, Nat.ofBits bits, 0, hring, Nat.ofBits_lt_two_pow bits⟩

/-- Draws with given masks. -/
def drawsOfMasks (masks : Fin digitCount → Scalar) : Randomness :=
  ⟨.replicate digitCount 0, .ofFn masks, .replicate digitCount 0, .replicate digitCount 0,
    .replicate digitCount 0⟩

/-- The masks of the draws are those that were asked for. -/
theorem masks_drawsOfMasks (masks : Fin digitCount → Scalar) (j : Fin digitCount) :
    (drawsOfMasks masks).masks.get j = masks j := Scalar.get_ofFn masks j

omit [Suite P] [LawfulGroup P] in
/-- Answers on the lines of the extracted digits are the masked values of their index. -/
theorem values_eq_maskedValue {ring : List P} {hring : ring.length = ringSize}
    {bits : Fin digitCount → Bool} {masks : Fin digitCount → Scalar} {values : List Scalar}
    {x : Scalar} (hlen : values.length = digitCount)
    (h : ∀ j : Fin digitCount, values.getD j 0 = .ofBit (bits j) * x + masks j) :
    values = List.ofFn ((extractedWitness ring hring bits).maskedValue (drawsOfMasks masks) x) := by
  apply List.ext_getElem
  · rw [hlen, List.length_ofFn]
  · intro j hj hj'
    have hbit := Nat.testBit_ofBits_lt bits j (hlen ▸ hj)
    have hvalue : values[j] = values.getD j 0 := by simp [hj]
    rw [List.getElem_ofFn, hvalue, h ⟨j, hlen ▸ hj⟩, Witness.maskedValue, masks_drawsOfMasks,
      Witness.bit, extractedWitness, hbit]

/-- The ring equation at one challenge, as a polynomial with points as coefficients. -/
theorem sum_pow_smul_of_ringEquation (w : Witness P) (d : Randomness) {x : Scalar}
    {c : Commitment P} {r : Response} (hlen : c.coefficients.length = digitCount)
    (hvalues : r.values = List.ofFn (w.maskedValue d x))
    (h : (ringEquation gens w.ring x c r).Holds) :
    ∑ k : Fin digitCount, x ^ (k : ℕ) • (w.coefficientSum d k - c.coefficients.getD k 0) +
      x ^ digitCount • w.ring.getD w.index 0 = r.ringOpening • gens.blinding := by
  have hcoefficients : weigh (x.powers digitCount) c.coefficients =
      ∑ k ∈ Finset.range digitCount, x ^ k • c.coefficients.getD k 0 := by
    rw [Scalar.powers_eq_map, weigh_map_range hlen]
  rw [← show _ = r.ringOpening • gens.blinding from h]
  simp only [ringEquation, weightedSum_append, weightedSum_zip, weigh_neg, hvalues,
    w.weigh_ringWeights, hcoefficients, smul_sub, Finset.sum_sub_distrib, Finset.sum_range]
  abel

omit [Suite P] [LawfulGroup P] in
/-- Within the ring an entry with a default is the entry. -/
theorem getElem?_of_getD {ring : List P} {i : ℕ} (h : i < ring.length) {p q : P}
    (hp : ring.getD i q = p) : ring[i]? = some p := by
  rw [← hp]
  simp [h]

/-- Special soundness: four answers to different challenges give away the digits of an index and
the blinding that opens the member there to zero. -/
theorem exists_index_of_answers
    (hgens : LinearIndependent Scalar ![gens.privateKey, gens.blinding]) {ring : List P}
    (hring : ring.length = ringSize) {c : Commitment P} {x : Fin (digitCount + 1) → Scalar}
    (hx : Function.Injective x) {r : Fin (digitCount + 1) → Response}
    (hshape : ∀ m, (⟨c, r m⟩ : Proof P).isWellFormed)
    (h : ∀ m, ∀ e ∈ equations gens ring (x m) c (r m), e.Holds) :
    ∃ index < ringSize,
      (∀ m m', m ≠ m' →
        (List.range digitCount).map (extractedDigit (x m) (x m') (r m) (r m')) =
          (digits index).map Scalar.ofBit) ∧
      ring[index]? = some (extractedBlinding x r • gens.blinding) := by
  have hdigits (m) := (forall_equations_iff.mp (h m)).1
  have hlines (j : Fin digitCount) : ∃ b : Bool, ∃ a, ∀ m, (r m).values.getD j 0 =
      .ofBit b * x m + a :=
    exists_bit_of_equations hgens hx (fun m => (hdigits m j j.isLt).1)
      fun m => (hdigits m j j.isLt).2
  choose bits masks hlines using hlines
  simp only [Proof.isWellFormed, Bool.and_eq_true, decide_eq_true_eq] at hshape
  let w := extractedWitness ring hring bits
  refine ⟨w.index, w.index_lt, fun m m' hm => ?_, ?_⟩
  · rw [digits, List.map_map]
    refine List.map_congr_left fun j hj => ?_
    have hj' := List.mem_range.mp hj
    have hne : x m - x m' ≠ 0 := sub_ne_zero.mpr (hx.ne hm)
    have hbit : w.index.testBit j = bits ⟨j, hj'⟩ := Nat.testBit_ofBits_lt bits j hj'
    rw [extractedDigit, hlines ⟨j, hj'⟩ m, hlines ⟨j, hj'⟩ m', Function.comp_apply, hbit]
    field_simp
    ring
  · refine getElem?_of_getD (q := 0) (by rw [hring]; exact w.index_lt) ?_
    let p (k : Fin digitCount) : P :=
      w.coefficientSum (drawsOfMasks masks) k - c.coefficients.getD k 0
    refine eq_leadingInterpolated_smul hx (p := p) fun m => ?_
    exact sum_pow_smul_of_ringEquation w (drawsOfMasks masks) (hshape m).1.1.1.2
      (values_eq_maskedValue (hshape m).1.1.2 fun j => hlines j m)
      (forall_equations_iff.mp (h m)).2

/-- The answers of an honest prover to the challenges 0, 1, 2 and 3 give its index away. -/
theorem exists_index_of_honest_answers :
    let x : Fin (digitCount + 1) → Scalar := fun m => (m : ℕ)
    let r := fun m => Witness.ideal.respond (drawsOfMasks fun _ => 1) (x m)
    ∃ index < ringSize,
      (∀ m m', m ≠ m' →
        (List.range digitCount).map (extractedDigit (x m) (x m') (r m) (r m')) =
          (digits index).map Scalar.ofBit) ∧
      Witness.ideal.ring[index]? =
        some (extractedBlinding x r • Generators.ideal.blinding) := by
  intro x r
  have hx : Function.Injective x := by
    intro m m' h
    have hlt (i : Fin (digitCount + 1)) : (i : ℕ) < Scalar.order := i.isLt.trans (by decide)
    exact Fin.ext ((Scalar.natCast_inj (hlt m) (hlt m')).mp h)
  have hattributes : Attribute.privateKey ≠ .blinding := by decide
  have hindependent :=
    Generators.linearIndependent_pair Generators.linearIndependent_ideal hattributes
  have hshape (m) : (⟨Witness.ideal.commit .ideal (drawsOfMasks fun _ => 1), r m⟩ :
      Proof Opening).isWellFormed :=
    Witness.ideal.isWellFormed_respond (drawsOfMasks fun _ => 1) (x m) .ideal
  have hequations (m) : ∀ e ∈ equations .ideal Witness.ideal.ring (x m)
      (Witness.ideal.commit .ideal (drawsOfMasks fun _ => 1)) (r m), e.Holds :=
    Witness.ideal.equations_hold (drawsOfMasks fun _ => 1) (x m) Witness.opens_ideal
  exact exists_index_of_answers hindependent Witness.ideal.length_ring hx hshape hequations

end ConfidentialPayment.Membership
