import ConfidentialPayment.Proofs.RangeProof.Completeness
import ConfidentialPayment.Proofs.Suite.Interpolation

/-!
# ConfidentialPayment.Proofs.RangeProof.Soundness

Whoever can answer every challenge of a range proof knows openings of all commitments to 64-bit
values.

1. Over independent bases the first move has one opening, two vectors of digits and complements
   (`Representation.eq_of_point_eq`), and the argument's vectors at zero are these vectors with the
   constants of `y` and `z` (`digits_eq_point`, `eq_of_unscaledRight_eq`).
2. So the first equation at zero expresses the weighted commitments by the digits and by what the
   digits lack to be bits (`weigh_commitments_of_isAnswer`).
3. Both sides are polynomials in `z` and in `y` that agree everywhere. Comparing coefficients
   (`eq_zero_of_weigh_valueWeights`), every digit is a bit and every commitment opens to what its
   own digits spell (`bits_of_weigh_eq`).
-/

namespace ConfidentialPayment.RangeProof

open Scalar

/-! ## Values that digits spell -/

/-- The values that blocks of digits spell. -/
def spelledValues : (count : ℕ) → List Scalar → List Scalar
  | 0, _ => []
  | count + 1, as => dot (as.take bitCount) digitPowers :: spelledValues count (as.drop bitCount)

@[simp] theorem length_spelledValues (count : ℕ) (as : List Scalar) :
    (spelledValues count as).length = count := by
  induction count generalizing as with
  | zero => rfl
  | succ count ih => simp [spelledValues, ih]

/-- Digits over the weights of their digits, whatever they are. -/
theorem dot_scale_digitPowers {ws as : List Scalar} (h : as.length = bitCount * ws.length) :
    dot as (ws.flatMap fun weight => scale weight digitPowers) =
      dot ws (spelledValues ws.length as) := by
  induction ws generalizing as with
  | nil => rw [List.eq_nil_of_length_eq_zero h]; rfl
  | cons w ws ih =>
    rw [List.length_cons, Nat.mul_succ] at h
    have htake : (as.take bitCount).length = (scale w digitPowers).length := by simp [h]
    have hblock : dot (as.take bitCount) (scale w digitPowers) =
        w * dot (as.take bitCount) digitPowers := weigh_smul w (as.take bitCount) digitPowers
    conv_lhs => rw [← List.take_append_drop bitCount as]
    rw [List.flatMap_cons, dot_append htake, ih (by simp [h]), hblock, List.length_cons,
      spelledValues, dot_cons]

/-- Bits spell a number with as many binary digits. -/
theorem exists_lt_of_bits {as : List Scalar} (h : ∀ a ∈ as, ∃ b, a = ofBit b) :
    ∃ n : ℕ, n < 2 ^ as.length ∧ dot as ((2 : Scalar).powers as.length) = (n : Scalar) := by
  induction as with
  | nil => exact ⟨0, Nat.one_pos, by simp⟩
  | cons a as ih =>
    obtain ⟨⟨b, rfl⟩, has⟩ := List.forall_mem_cons.mp h
    obtain ⟨n, hn, hdot⟩ := ih has
    have hpowers : (2 : Scalar).powers (as.length + 1) = 1 :: scale 2 (powers 2 as.length) := by
      rw [powers, geometric, powers, scale_geometric, mul_comm]
    refine ⟨b.toNat + 2 * n, ?_, ?_⟩
    · have hb := b.toNat_lt
      rw [List.length_cons, Nat.pow_succ]
      omega
    · have hscale : dot as (scale 2 (powers 2 as.length)) = 2 * dot as (powers 2 as.length) :=
        weigh_smul 2 as _
      rw [List.length_cons, hpowers, dot_cons, hscale, hdot]
      cases b <;> simp [ofBit]

/-- Bits spell 64-bit values. -/
theorem exists_value_of_bits {count : ℕ} {as : List Scalar} (hlen : as.length = bitCount * count)
    (h : ∀ a ∈ as, ∃ b, a = ofBit b) :
    ∀ s ∈ spelledValues count as, ∃ v : UInt64, s = ofUInt64 v := by
  induction count generalizing as with
  | zero => simp [spelledValues]
  | succ count ih =>
    rw [Nat.mul_succ] at hlen
    have hblock : (as.take bitCount).length = bitCount := by simp [hlen]
    refine List.forall_mem_cons.mpr
      ⟨?_, ih (by simp [hlen]) fun a ha => h a (List.mem_of_mem_drop ha)⟩
    obtain ⟨n, hn, hdot⟩ := exists_lt_of_bits fun a ha => h a (List.mem_of_mem_take ha)
    rw [hblock] at hn hdot
    refine ⟨UInt64.ofNat n, ?_⟩
    rw [ofUInt64_eq_natCast, UInt64.toNat_ofNat_of_lt' hn]
    exact hdot

variable {P : Type} [Suite P] {gens : Generators P} {table : GeneratorTable P}

/-! ## Coordinates -/

/-- The points that the equations of a proof are made of. -/
def bases (gens : Generators P) (table : GeneratorTable P) (n : ℕ) : List P :=
  table.g.take n ++ table.h.take n ++ [table.u, gens.value, gens.blinding]

/-- Two vectors over the table, and scalars over its last base and over the generators of values
and blindings. -/
structure Representation where
  left : List Scalar
  right : List Scalar
  product : Scalar
  value : Scalar
  blinding : Scalar

variable [LawfulGroup P]

/-- The point with given coordinates. -/
def Representation.point (gens : Generators P) (table : GeneratorTable P) (n : ℕ)
    (c : Representation) :
    P :=
  weigh c.left (table.g.take n) + weigh c.right (table.h.take n) + c.product • table.u +
    c.value • gens.value + c.blinding • gens.blinding

/-- Over independent bases the coordinates of a point are unique. -/
theorem Representation.eq_of_point_eq {n : ℕ} (hcapacity : n ≤ table.capacity)
    (hgens : LinearIndependent Scalar (bases gens table n).get) {c c' : Representation}
    (hleft : c.left.length = n) (hright : c.right.length = n) (hleft' : c'.left.length = n)
    (hright' : c'.right.length = n) (h : c.point gens table n = c'.point gens table n) :
    c = c' := by
  have hg := length_take_g hcapacity
  have hh := length_take_h hcapacity
  have hpoint {c : Representation} (hleft : c.left.length = n) (hright : c.right.length = n) :
      weigh (c.left ++ c.right ++ [c.product, c.value, c.blinding]) (bases gens table n) =
        c.point gens table n := by
    rw [bases, weigh_append (by simp [hleft, hright, hg, hh]), weigh_append (by simp [hleft, hg])]
    simp [point, add_assoc]
  have hlists := weigh_injective hgens (by simp [bases, hleft, hright, hg, hh])
    (by simp [bases, hleft', hright', hg, hh])
    ((hpoint hleft hright).trans (h.trans (hpoint hleft' hright').symm))
  obtain ⟨hvectors, hscalars⟩ := List.append_inj hlists (by simp [hleft, hleft', hright, hright'])
  obtain ⟨hl, hr⟩ := List.append_inj hvectors (hleft.trans hleft'.symm)
  simp only [List.cons.injEq, and_true] at hscalars
  obtain ⟨hproduct, hvalue, hblinding⟩ := hscalars
  cases c
  cases c'
  simp_all

/-! ## Answers -/

/-- Vectors that answer the challenges: with them both equations hold, and the argument is about
vectors that match the first move. -/
structure IsAnswer (gens : Generators P) (table : GeneratorTable P) (commitments : List P)
    (v : VectorCommitment P) (c : Challenges) (p : PolynomialCommitment P) (e : Evaluation)
    (l r : List Scalar) : Prop where
  length_left : l.length = vectorLength commitments.length
  length_right : r.length = vectorLength commitments.length
  polynomial : (polynomialEquation gens c (padded 0 commitments) p e).Holds
  argument : argumentCommitment gens table c (padded 0 commitments).length v e =
    InnerProduct.Vectors.commitment (c.w • table.u)
      ⟨table.g.take (vectorLength commitments.length),
        List.zipWith (· • ·) (c.y.inverse.powers (vectorLength commitments.length))
          (table.h.take (vectorLength commitments.length)), l, r⟩

/-- What the right vector of an argument stands for over the bases without `y`. -/
def unscaledRight (y z : Scalar) (count : ℕ) (r : List Scalar) : List Scalar :=
  (mulEach (List.zipWith (· - ·) r (digitWeights z count)) (y⁻¹.powers (bitCount * count))).map
    (· + -z)

/-- The coordinates that an answer to the challenge zero gives the first move. -/
def answerRepresentation (c : Challenges) (count : ℕ) (e : Evaluation) (l r : List Scalar) :
    Representation where
  left := l.map (· + c.z)
  right := unscaledRight c.y c.z count r
  product := (dot l r - e.value) * c.w
  value := 0
  blinding := e.vectorBlinding

/-- At the challenge zero an answer represents the commitment to the digits alone. -/
theorem digits_eq_point {commitments : List P} {v : VectorCommitment P} {y z w : Scalar}
    {p : PolynomialCommitment P} {e : Evaluation} {l r : List Scalar}
    (hcapacity : vectorLength commitments.length ≤ table.capacity)
    (h : IsAnswer gens table commitments v ⟨y, z, 0, w⟩ p e l r) :
    v.digits = (answerRepresentation ⟨y, z, 0, w⟩ (pad commitments.length) e l r).point gens table
      (vectorLength commitments.length) := by
  have hargument := h.argument
  have hl : l.length = bitCount * pad commitments.length := h.length_left
  have hr : r.length = bitCount * pad commitments.length := h.length_right
  have hdigits := length_digitWeights z (pad commitments.length)
  have hpowers := length_powers y⁻¹ (bitCount * pad commitments.length)
  rw [length_padded, argumentCommitment_eq_sum _ _ _ hcapacity, InnerProduct.commitment_eq]
    at hargument
  simp only [vectorLength, Scalar.inverse_eq_inv] at hcapacity hargument ⊢
  simp only [Representation.point, answerRepresentation, unscaledRight]
  rw [weigh_map_add z (by rw [hl, length_take_g hcapacity]),
    weigh_map_add (-z) (by simp [hdigits, hr, length_take_h hcapacity]), mulEach, weigh_mul,
    weigh_sub_left _ (hr.trans hdigits.symm)]
  rw [← sub_eq_zero] at hargument ⊢
  rw [← hargument, dot_eq_weigh]
  module

omit [Suite P] [LawfulGroup P] in
/-- The right vector from what it stands for. -/
theorem eq_of_unscaledRight_eq {y z : Scalar} (hy : y ≠ 0) {count : ℕ} {r bs : List Scalar}
    (hr : r.length = bitCount * count) (h : unscaledRight y z count r = bs) :
    r = addEach (mulEach (y.powers (bitCount * count)) (bs.map (· + z)))
      (digitWeights z count) := by
  subst h
  apply List.ext_getElem
  · simp [unscaledRight, length_digitWeights, hr]
  · intro i hi hi'
    have hweight : i < (digitWeights z count).length := by rwa [length_digitWeights, ← hr]
    have hcancel : y ^ i * y⁻¹ ^ i = 1 := by rw [← mul_pow, mul_inv_cancel₀ hy, one_pow]
    simp only [unscaledRight, addEach, mulEach, List.getElem_zipWith, List.getElem_map,
      getElem_powers]
    linear_combination ((digitWeights z count)[i] - r[i]) * hcancel

omit [Suite P] [LawfulGroup P] in
/-- The product of the vectors at zero: the constants, what the digits spell, and what they lack to
be bits. -/
theorem dot_vectors_eq_delta_add {y : Scalar} (z : Scalar) {count : ℕ} {as bs : List Scalar}
    (has : as.length = bitCount * count) (hbs : bs.length = bitCount * count) :
    dot (as.map (· - z)) (addEach (mulEach (y.powers (bitCount * count)) (bs.map (· + z)))
        (digitWeights z count)) =
      delta (y.powers (bitCount * count)) z count +
        dot (valueWeights z count) (spelledValues count as) +
        dot (y.powers (bitCount * count)) (bitDefects z as bs) := by
  have hspelled : dot as (digitWeights z count) =
      dot (valueWeights z count) (spelledValues (valueWeights z count).length as) :=
    dot_scale_digitPowers (by rw [length_valueWeights]; exact has)
  rw [length_valueWeights] at hspelled
  rw [dot_vectors z has hbs (length_powers y _) (length_digitWeights z _), delta_eq, hspelled]

/-- One answer to the challenge zero: the weighted commitments open to what the digits of the first
move spell, together with what they lack to be bits. -/
theorem weigh_commitments_of_isAnswer {commitments : List P} {v : VectorCommitment P}
    {y z : Scalar} (hy : y ≠ 0) {p : PolynomialCommitment P} {e : Evaluation} {l r : List Scalar}
    (hcapacity : vectorLength commitments.length ≤ table.capacity)
    (hgens : LinearIndependent Scalar (bases gens table (vectorLength commitments.length)).get)
    {as bs : List Scalar} {blinding : Scalar} (has : as.length = vectorLength commitments.length)
    (hbs : bs.length = vectorLength commitments.length)
    (hdigits : v.digits = Representation.point gens table (vectorLength commitments.length)
      ⟨as, bs, 0, 0, blinding⟩)
    (h : IsAnswer gens table commitments v ⟨y, z, 0, 1⟩ p e l r) :
    weigh (valueWeights z (pad commitments.length)) (padded 0 commitments) =
      (dot (valueWeights z (pad commitments.length))
          (spelledValues (pad commitments.length) as) +
        dot (y.powers (vectorLength commitments.length)) (bitDefects z as bs)) • gens.value +
      e.blinding • gens.blinding := by
  have hright : (unscaledRight y z (pad commitments.length) r).length =
      vectorLength commitments.length := by
    simp [unscaledRight, length_digitWeights, h.length_right, vectorLength]
  have hrepresentation := Representation.eq_of_point_eq hcapacity hgens
    (by simp [answerRepresentation, h.length_left]) hright has hbs
    ((digits_eq_point hcapacity h).symm.trans hdigits)
  simp only [answerRepresentation, Representation.mk.injEq, mul_one, sub_eq_zero] at hrepresentation
  obtain ⟨hleft, hright, hproduct, -, -⟩ := hrepresentation
  have hl : l = as.map (· - z) := by
    rw [← hleft, List.map_map]
    simp [Function.comp_def]
  have hvalue : e.value = delta (y.powers (vectorLength commitments.length)) z
      (pad commitments.length) +
      dot (valueWeights z (pad commitments.length)) (spelledValues (pad commitments.length) as) +
      dot (y.powers (vectorLength commitments.length)) (bitDefects z as bs) := by
    rw [← hproduct, hl, eq_of_unscaledRight_eq hy h.length_right hright]
    exact dot_vectors_eq_delta_add z has hbs
  have hequation := h.polynomial
  simp only [polynomialEquation, Equation.Holds, length_padded, weightedSum_append, weightedSum_zip,
    weightedSum_cons, weightedSum_nil] at hequation
  simp only [hvalue, vectorLength] at hequation ⊢
  refine sub_eq_zero.mp (Eq.trans ?_ hequation)
  module

/-! ## Comparing coefficients -/

/-- What digits lack to be bits, by powers of `z`. -/
theorem dot_bitDefects (z : Scalar) (ys : List Scalar) {as bs : List Scalar}
    (h : as.length = bs.length) :
    dot ys (bitDefects z as bs) =
      dot ys (mulEach as bs) + z * dot ys (List.zipWith (fun a b => a - b - 1) as bs) := by
  have hsplit : bitDefects z as bs = List.zipWith (· + ·) (mulEach as bs)
      ((List.zipWith (fun a b => a - b - 1) as bs).map (z • ·)) := by
    apply List.ext_getElem <;> simp [bitDefects, mulEach]
  rw [hsplit, dot_eq_weigh, weigh_add_right _ (by simp [h]), weigh_smul]
  rfl

/-- Scalars whose weighted sum by the powers of `y` vanishes for all `y` are zero. -/
theorem eq_zero_of_dot_powers {xs : List Scalar} (hlen : xs.length < Scalar.order)
    (h : ∀ y : Scalar, y ≠ 0 → dot (y.powers xs.length) xs = 0) : ∀ x ∈ xs, x = 0 :=
  eq_zero_of_weigh_powers hlen h

/-- Weighted differences to multiples of one point. -/
theorem weigh_zipWith_sub {M : Type} [AddCommGroup M] [Module Scalar M] (g : M)
    {xs ss : List Scalar} {ms : List M} (h : ms.length = ss.length) :
    weigh xs (List.zipWith (fun m s => m - s • g) ms ss) = weigh xs ms - dot xs ss • g := by
  induction ms generalizing xs ss with
  | nil =>
    obtain rfl := List.eq_nil_of_length_eq_zero h.symm
    simp [dot_comm xs]
  | cons m ms ih =>
    obtain ⟨s, ss, rfl⟩ := List.exists_cons_of_length_eq_add_one h.symm
    cases xs with
    | nil => simp
    | cons x xs =>
      rw [List.zipWith_cons_cons, weigh_cons, ih (Nat.succ.inj h), weigh_cons, dot_cons]
      module

/-- If points weighted for `z` are, for all `z`, the multiple of one point by scalars weighted for
`z` and a line in `z`, the line is zero and every point is its multiple. -/
theorem eq_zero_of_weigh_valueWeights {M : Type} [AddCommGroup M] [Module Scalar M] {g : M}
    (hg : g ≠ 0) {ms : List M} {ss : List Scalar} (hlen : ms.length = ss.length)
    (hcount : ms.length + 2 < Scalar.order) {a b : Scalar}
    (h : ∀ z, weigh (valueWeights z ms.length) ms =
      (dot (valueWeights z ms.length) ss + (a + z * b)) • g) :
    a = 0 ∧ b = 0 ∧ ∀ p ∈ List.zipWith (fun m s => m - s • g) ms ss, p = 0 := by
  -- The identity is a polynomial in `z` with these coefficients.
  have hcoefficients : ∀ p ∈ (-a) • g :: (-b) • g ::
      List.zipWith (fun m s => m - s • g) ms ss, p = 0 := by
    refine eq_zero_of_weigh_powers (by simp [← hlen, hcount]) fun z _ => ?_
    have hpowers : z.powers (ms.length + 2) = 1 :: z :: valueWeights z ms.length := by
      simp [powers, geometric, valueWeights]
    simp only [List.length_cons, List.length_zipWith, ← hlen, min_self, hpowers, weigh_cons]
    rw [weigh_zipWith_sub g hlen, h z]
    module
  obtain ⟨ha, hrest⟩ := List.forall_mem_cons.mp hcoefficients
  obtain ⟨hb, hpoints⟩ := List.forall_mem_cons.mp hrest
  exact ⟨neg_eq_zero.mp ((smul_eq_zero.mp ha).resolve_right hg),
    neg_eq_zero.mp ((smul_eq_zero.mp hb).resolve_right hg), hpoints⟩

/-- Digits whose products with their complements vanish, and which are one more than their
complements, are bits. -/
theorem exists_ofBit_of_complements {as bs : List Scalar} (hlen : as.length = bs.length)
    (hproducts : ∀ x ∈ mulEach as bs, x = 0)
    (hdifferences : ∀ x ∈ List.zipWith (fun a b => a - b - 1) as bs, x = 0) :
    ∀ a ∈ as, ∃ b, a = ofBit b := by
  intro a ha
  obtain ⟨i, hi, rfl⟩ := List.getElem_of_mem ha
  have hi' : i < bs.length := by rwa [← hlen]
  have hproduct : as[i] * bs[i] = 0 := hproducts _ <| List.mem_iff_getElem.mpr
    ⟨i, by simp [hi, hi'], by simp [mulEach]⟩
  have hdifference : as[i] - bs[i] - 1 = 0 := hdifferences _ <| List.mem_iff_getElem.mpr
    ⟨i, by simp [hi, hi'], by simp⟩
  have hsquare : as[i] * (1 - as[i]) = 0 := by
    linear_combination -hproduct - as[i] * hdifference
  exact bit_of_mul_self hsquare

/-- The generator of values is no multiple of the generator of blindings. -/
theorem value_notMem_span {n : ℕ} (hcapacity : n ≤ table.capacity)
    (hgens : LinearIndependent Scalar (bases gens table n).get) :
    gens.value ∉ Submodule.span Scalar {gens.blinding} := by
  intro hmem
  obtain ⟨c, hc⟩ := Submodule.mem_span_singleton.mp hmem
  have hzeros : (List.replicate n (0 : Scalar)).length = n := List.length_replicate
  have h : (⟨.replicate n 0, .replicate n 0, 0, 1, 0⟩ : Representation) =
      ⟨.replicate n 0, .replicate n 0, 0, 0, c⟩ :=
    Representation.eq_of_point_eq hcapacity hgens hzeros hzeros hzeros hzeros
      (by simp [Representation.point, hc])
  exact one_ne_zero (congrArg Representation.value h)

/-- If the weighted commitments open to what digits spell with what they lack to be bits, for all
`y` and `z`, then the digits lack nothing and every commitment opens to what its digits spell. -/
theorem bits_of_weigh_eq {n count : ℕ} (hn : n < Scalar.order) (hcount : count + 2 < Scalar.order)
    (hvalue : gens.value ∉ Submodule.span Scalar {gens.blinding}) {Vs : List P}
    {as bs ss : List Scalar} (hVs : Vs.length = count) (has : as.length = n) (hbs : bs.length = n)
    (hss : ss.length = count)
    (h : ∀ y : Scalar, y ≠ 0 → ∀ z, ∃ blinding : Scalar, weigh (valueWeights z count) Vs =
      (dot (valueWeights z count) ss + dot (y.powers n) (bitDefects z as bs)) • gens.value +
        blinding • gens.blinding) :
    (∀ a ∈ as, ∃ b, a = ofBit b) ∧
      ∀ p ∈ List.zipWith (fun V s => V - s • gens.value) Vs ss,
        p ∈ Submodule.span Scalar {gens.blinding} := by
  subst hVs
  -- Up to blinding, the weighted commitments are multiples of the generator of values.
  let π := (Submodule.span Scalar {gens.blinding}).mkQ
  have hblinding : π gens.blinding = 0 :=
    (Submodule.Quotient.mk_eq_zero _).mpr (Submodule.mem_span_singleton_self _)
  have hvalue' : π gens.value ≠ 0 := fun hzero =>
    hvalue ((Submodule.Quotient.mk_eq_zero _).mp hzero)
  have hline (y : Scalar) (hy : y ≠ 0) : dot (y.powers n) (mulEach as bs) = 0 ∧
      dot (y.powers n) (List.zipWith (fun a b => a - b - 1) as bs) = 0 ∧
      ∀ p ∈ List.zipWith (fun m s => m - s • π gens.value) (Vs.map π) ss, p = 0 := by
    refine eq_zero_of_weigh_valueWeights hvalue' (by simp [hss]) (by simpa using hcount)
      fun z => ?_
    obtain ⟨blinding, hz⟩ := h y hy z
    have hπ := congrArg π hz
    rw [map_weigh, map_add, map_smul, map_smul, hblinding, smul_zero, add_zero,
      dot_bitDefects z _ (has.trans hbs.symm)] at hπ
    rwa [List.length_map]
  have hproducts : ∀ x ∈ mulEach as bs, x = 0 := by
    refine eq_zero_of_dot_powers (by simp [has, hbs, hn]) fun y hy => ?_
    rw [length_mulEach, has, hbs, min_self]
    exact (hline y hy).1
  have hdifferences : ∀ x ∈ List.zipWith (fun a b => a - b - 1) as bs, x = 0 := by
    refine eq_zero_of_dot_powers (by simp [has, hbs, hn]) fun y hy => ?_
    rw [List.length_zipWith, has, hbs, min_self]
    exact (hline y hy).2.1
  refine ⟨exists_ofBit_of_complements (has.trans hbs.symm) hproducts hdifferences, fun p hp => ?_⟩
  have hmap : (List.zipWith (fun V s => V - s • gens.value) Vs ss).map π =
      List.zipWith (fun m s => m - s • π gens.value) (Vs.map π) ss := by
    simp only [List.map_zipWith, List.zipWith_map_left, map_sub, map_smul]
  refine (Submodule.Quotient.mk_eq_zero _).mp ((hline 1 one_ne_zero).2.2 (π p) ?_)
  rw [← hmap]
  exact List.mem_map_of_mem hp

/-! ## Openings -/

/-- The first move of a prover with an answer has a representation without parts outside the
table and the blinding. -/
theorem exists_representation {commitments : List P} {v : VectorCommitment P} {y z : Scalar}
    {p : PolynomialCommitment P} {e : Evaluation} {l r : List Scalar}
    (hcapacity : vectorLength commitments.length ≤ table.capacity)
    (h : IsAnswer gens table commitments v ⟨y, z, 0, 0⟩ p e l r) :
    ∃ as bs blinding, as.length = vectorLength commitments.length ∧
      bs.length = vectorLength commitments.length ∧
      v.digits = Representation.point gens table (vectorLength commitments.length)
        ⟨as, bs, 0, 0, blinding⟩ := by
  refine ⟨l.map (· + z), unscaledRight y z (pad commitments.length) r, e.vectorBlinding, ?_, ?_, ?_⟩
  · rw [List.length_map, h.length_left]
  · simp [unscaledRight, length_digitWeights, h.length_right, vectorLength]
  · rw [digits_eq_point hcapacity h, answerRepresentation, mul_zero]

/-- Soundness: if all challenges can be answered after the first move, every commitment opens to a
64-bit value. -/
theorem exists_openings_of_answers {commitments : List P} (hle : commitments.length ≤ maxValues)
    (hcapacity : vectorLength commitments.length ≤ table.capacity)
    (hgens : LinearIndependent Scalar (bases gens table (vectorLength commitments.length)).get)
    {v : VectorCommitment P}
    (h : ∀ y, y ≠ 0 → ∀ z, ∃ p, ∀ x, ∃ e, ∀ w, ∃ l r,
      IsAnswer gens table commitments v ⟨y, z, x, w⟩ p e l r) :
    ∀ V ∈ commitments, ∃ (value : UInt64) (blinding : Scalar),
      V = gens.commitTo .value (ofUInt64 value) blinding := by
  have hpad : pad commitments.length ≤ 32 := pad_le_of_le (k := 5) hle
  obtain ⟨as, bs, blinding, has, hbs, hdigits⟩ : ∃ as bs blinding, _ := by
    obtain ⟨p, hp⟩ := h 1 one_ne_zero 0
    obtain ⟨e, he⟩ := hp 0
    obtain ⟨l, r, hanswer⟩ := he 0
    exact exists_representation hcapacity hanswer
  have hn : vectorLength commitments.length < Scalar.order :=
    lt_of_le_of_lt (Nat.mul_le_mul_left bitCount hpad) (by decide)
  have hcount : pad commitments.length + 2 < Scalar.order :=
    lt_of_le_of_lt (Nat.add_le_add_right hpad 2) (by decide)
  obtain ⟨hbits, hopenings⟩ := bits_of_weigh_eq hn hcount (value_notMem_span hcapacity hgens)
    (length_padded 0 commitments) has hbs (length_spelledValues _ as) fun y hy z => by
      obtain ⟨p, hp⟩ := h y hy z
      obtain ⟨e, he⟩ := hp 0
      obtain ⟨l, r, hanswer⟩ := he 1
      exact ⟨e.blinding, weigh_commitments_of_isAnswer hy hcapacity hgens has hbs hdigits hanswer⟩
  intro V hV
  obtain ⟨j, hj, rfl⟩ := List.getElem_of_mem hV
  have hj' : j < (spelledValues (pad commitments.length) as).length := by
    rw [length_spelledValues]
    exact hj.trans_le (le_pad _)
  obtain ⟨value, hvalue⟩ := exists_value_of_bits has hbits _ (List.getElem_mem hj')
  have hmem : commitments[j] - ofUInt64 value • gens.value ∈
      List.zipWith (fun V s => V - s • gens.value) (padded 0 commitments)
        (spelledValues (pad commitments.length) as) := by
    refine List.mem_iff_getElem.mpr ⟨j, by simpa using hj.trans_le (le_pad _), ?_⟩
    rw [List.getElem_zipWith, hvalue]
    simp [padded, hj]
  obtain ⟨blinding, hblinding⟩ := Submodule.mem_span_singleton.mp (hopenings _ hmem)
  refine ⟨value, blinding, ?_⟩
  rw [Generators.commitTo_eq, hblinding, Generators.get]
  abel

/-- An honest prover can answer all challenges. -/
theorem Witness.exists_answers (w : Witness) (d : Randomness w.vectorLength)
    (hcapacity : w.vectorLength ≤ table.capacity) :
    ∀ y, y ≠ 0 → ∀ z, ∃ p, ∀ x, ∃ e, ∀ c, ∃ l r,
      IsAnswer gens table (valueCommitments gens w.values w.blindings)
        (w.commitVectors gens table d) ⟨y, z, x, c⟩ p e l r := by
  intro y hy z
  refine ⟨w.commitPolynomial gens d (w.vectors d y z), fun x =>
    ⟨w.evaluate d (w.vectors d y z) z x, fun c =>
      ⟨(w.vectors d y z).leftAt x, (w.vectors d y z).rightAt x, ?_⟩⟩⟩
  have hcount : (valueCommitments gens w.values w.blindings).length = w.values.length := by
    simp [valueCommitments, w.length_eq]
  have hv := w.hasLength_vectors d y z
  constructor
  case length_left => rw [hcount, hv.leftAt]; rfl
  case length_right => rw [hcount, hv.rightAt]; rfl
  case polynomial =>
    rw [← w.commitments_eq_padded]
    exact w.polynomialEquation_holds gens d ⟨y, z, x, c⟩
  case argument =>
    rw [length_padded, hcount]
    exact w.argumentCommitment_eq gens table d ⟨y, z, x, c⟩ hy hcapacity

/-- The units that the equations are made of are at different places. -/
theorem nodup_places (n : ℕ) :
    ((List.range n).map (2 * · + 6) ++ (List.range n).map (2 * · + 7) ++ [5, 1, 4]).Nodup := by
  have hmap (c : ℕ) : ((List.range n).map (2 * · + c)).Nodup :=
    List.nodup_range.map fun i j hij => by omega
  have hsmall : ∀ b ∈ [5, 1, 4], b < 6 := by decide
  have hlarge : ∀ a ∈ (List.range n).map (2 * · + 6) ++ (List.range n).map (2 * · + 7), 6 ≤ a := by
    intro a ha
    rcases List.mem_append.mp ha with ha | ha
    all_goals
      obtain ⟨i, -, rfl⟩ := List.mem_map.mp ha
      omega
  rw [List.nodup_append, List.nodup_append]
  refine ⟨⟨hmap 6, hmap 7, fun a ha b hb => ?_⟩, by decide, fun a ha b hb =>
    ((hsmall b hb).trans_le (hlarge a ha)).ne'⟩
  obtain ⟨i, -, rfl⟩ := List.mem_map.mp ha
  obtain ⟨j, -, rfl⟩ := List.mem_map.mp hb
  omega

/-- Units are independent bases. -/
theorem linearIndependent_bases_units {n capacity : ℕ} (h : n ≤ capacity) :
    LinearIndependent Scalar (bases .units (.units capacity) n).get := by
  have hunits : bases .units (.units capacity) n =
      ((List.range n).map (2 * · + 6) ++ (List.range n).map (2 * · + 7) ++ [5, 1, 4]).map
        .unit := by
    simp only [bases, GeneratorTable.units, Generators.units, List.map_append, List.map_map,
      ← List.map_take, List.take_range, Nat.min_eq_left h]
    rfl
  rw [hunits]
  exact ConfidentialPayment.Coordinates.linearIndependent_units (nodup_places n)

/-- The commitments of an honest prover with three values, as the extractor sees them. -/
theorem exists_openings_of_honest_answers :
    let w : Witness := ⟨[5, 18446744073709551615, 1], [1, 2, 3], rfl, by decide, by decide,
      by simp⟩
    ∀ V ∈ valueCommitments Generators.units w.values w.blindings,
      ∃ (value : UInt64) (blinding : Scalar),
        V = Generators.units.commitTo .value (ofUInt64 value) blinding := by
  intro w
  let d : Randomness w.vectorLength := ⟨1, .replicate _ 2, .replicate _ 3, 4, 5, 6⟩
  have hcapacity : w.vectorLength ≤ (GeneratorTable.units 256).capacity := by
    simp only [GeneratorTable.capacity, GeneratorTable.units, List.length_map, List.length_range]
    decide
  have hindependent : LinearIndependent Scalar (bases .units (.units 256) w.vectorLength).get :=
    linearIndependent_bases_units (by decide)
  exact exists_openings_of_answers (by decide) hcapacity hindependent
    (w.exists_answers d hcapacity)

end ConfidentialPayment.RangeProof
