import ConfidentialPayment.Machine.Polynomial
import ConfidentialPayment.Proofs.Machine.Arithmetic
import ConfidentialPayment.Proofs.Polynomial

/-!
# ConfidentialPayment.Proofs.Machine.Polynomial

Polynomials on the machine are those over the scalar field.

1. What is added at a place, in a row, and in all rows is what the product consists of
   (`addAt_eq`, `addRow_eq`, `foldlM_addRow_eq`), so a product denotes the product of what its
   factors denote, and its coefficients are least representatives (`multiply_eq`).
2. Every integer becomes its class in the scalar field, as the least representative fits into the
   buffer (`scalarOf_eq`).
3. `multiplyFactors_eq` goes along a list of factors, and least representatives are known by what
   they denote (`eq_of_ofCoefficients_eq`). `multiplyFactors_is_field_product` draws both together:
   the product is the one over the field, and the one of the other modules.
-/

open scoped Polynomial

namespace ConfidentialPayment.Machine

open ConfidentialPayment.Polynomial (ofCoefficients coeff_ofCoefficients ofCoefficients_map
  linearFactor)

/-- A buffer of zeros denotes zero. -/
theorem ofCoefficients_replicate_zero (n : ℕ) : ofCoefficients (List.replicate n 0) = 0 := by
  induction n with
  | zero => rfl
  | succ n ih => simp [List.replicate_succ, ofCoefficients, ih]

/-! ## Accumulation -/

/-- Adding to the coefficient at a place adds a monomial of this degree. -/
theorem ofCoefficients_modify {sums : List ℤ} {place : ℕ} (h : place < sums.length) (term : ℤ) :
    ofCoefficients (sums.modify place (· + term)) =
      ofCoefficients sums + Polynomial.C (term : Scalar) * Polynomial.X ^ place := by
  induction sums generalizing place with
  | nil => cases h
  | cons sum sums ih =>
    cases place with
    | zero =>
      simp only [List.modify_zero_cons, ofCoefficients, Int.cast_add, Polynomial.C_add]
      ring
    | succ place =>
      simp only [List.modify_succ_cons, ofCoefficients, ih (Nat.lt_of_succ_lt_succ h)]
      ring

/-- What is added to a list of sums, as a polynomial. -/
structure Adds (term : Scalar[X]) (sums after : List ℤ) : Prop where
  length_eq : after.length = sums.length
  denote_eq : ofCoefficients after = ofCoefficients sums + term

/-- Adding at a place within the buffer does not fault, and adds a monomial. -/
theorem addAt_eq {sums : List ℤ} {place : ℕ} (h : place < sums.length) (term : ℤ) :
    ∃ after, addAt sums place term = .ok after ∧
      Adds (Polynomial.C (term : Scalar) * Polynomial.X ^ place) sums after :=
  ⟨_, if_pos h, List.length_modify .., ofCoefficients_modify h term⟩

/-- A row from one of its entries on. -/
theorem addRow_eq {q sums : List ℤ} (i start : ℕ) (a : ℤ)
    (h : i + start + q.length ≤ sums.length) :
    ∃ after, (q.zipIdx start).foldlM (fun sums (b, j) => addAt sums (i + j) (a * b)) sums =
        .ok after ∧
      Adds (Polynomial.C (a : Scalar) * Polynomial.X ^ (i + start) * ofCoefficients q)
        sums after := by
  induction q generalizing start sums with
  | nil => exact ⟨sums, rfl, rfl, by simp [ofCoefficients]⟩
  | cons b q ih =>
    rw [List.length_cons] at h
    obtain ⟨between, hfirst, hlength, hterm⟩ := addAt_eq (show i + start < sums.length by omega)
      (a * b)
    have hfits : i + (start + 1) + q.length ≤ between.length := by omega
    obtain ⟨after, hrest, hlength', hrow⟩ := ih (start + 1) hfits
    refine ⟨after, ?_, hlength'.trans hlength, ?_⟩
    · rw [List.zipIdx_cons, List.foldlM_cons]
      dsimp only
      rw [hfirst]
      exact hrest
    · rw [hrow, hterm, ofCoefficients, Int.cast_mul, Polynomial.C_mul]
      ring

/-- All rows from one of them on. -/
theorem foldlM_addRow_eq {p q sums : List ℤ} (start : ℕ)
    (h : start + p.length + q.length ≤ sums.length + 1) :
    ∃ after, (p.zipIdx start).foldlM (addRow q) sums = .ok after ∧
      Adds (Polynomial.X ^ start * ofCoefficients p * ofCoefficients q) sums after := by
  induction p generalizing start sums with
  | nil => exact ⟨sums, rfl, rfl, by simp [ofCoefficients]⟩
  | cons a p ih =>
    rw [List.length_cons] at h
    have hrowFits : start + 0 + q.length ≤ sums.length := by omega
    obtain ⟨between, hfirst, hlength, hrow⟩ := addRow_eq start 0 a hrowFits
    have hfits : start + 1 + p.length + q.length ≤ between.length + 1 := by omega
    obtain ⟨after, hrest, hlength', hrows⟩ := ih (start + 1) hfits
    refine ⟨after, ?_, hlength'.trans hlength, ?_⟩
    · rw [List.zipIdx_cons, List.foldlM_cons, addRow, hfirst]
      exact hrest
    · rw [hrows, hrow, ofCoefficients]
      ring

/-! ## Reduction -/

/-- Whether integers are least representatives. -/
def IsReduced (p : List ℤ) : Prop := ∀ c ∈ p, 0 ≤ c ∧ c < Scalar.order

theorem order_pos : (0 : ℤ) < Scalar.order := Int.natCast_pos.mpr Scalar.order_pos

/-- An integer as a scalar is the class of its least representative. -/
theorem intCast_eq (n : ℤ) : (n : Scalar) = .ofNat (n.fmod Scalar.order).natAbs := by
  have hnonneg : 0 ≤ n % Scalar.order := Int.emod_nonneg n order_pos.ne'
  have habs : (n % Scalar.order).natAbs = (n % Scalar.order).toNat := by omega
  rw [Int.fmod_eq_emod_of_nonneg n order_pos.le, habs]
  rfl

/-- Reducing an integer does not change the scalar. -/
theorem intCast_fmod (n : ℤ) : ((n.fmod Scalar.order : ℤ) : Scalar) = n := by
  rw [Int.fmod_eq_emod_of_nonneg n order_pos.le, Scalar.intCast_emod]

/-- What the multiplication leaves behind is reduced. -/
theorem isReduced_map_fmod (p : List ℤ) : IsReduced (p.map fun c => c.fmod Scalar.order) := by
  intro c hc
  obtain ⟨n, -, rfl⟩ := List.mem_map.mp hc
  exact ⟨Int.fmod_nonneg_of_pos n order_pos, Int.fmod_lt_of_pos n order_pos⟩

/-- A product has all places of its terms, least representatives as coefficients, and the product
of the factors as its value. -/
theorem multiply_eq {p q : List ℤ} (h : 0 < p.length + q.length) :
    ∃ product, multiply p q = .ok product ∧ product.length = p.length + q.length - 1 ∧
      IsReduced product ∧ ofCoefficients product = ofCoefficients p * ofCoefficients q := by
  have hfits : 0 + p.length + q.length ≤
      (List.replicate (p.length + q.length - 1) (0 : ℤ)).length + 1 := by
    rw [List.length_replicate]
    omega
  obtain ⟨sums, hsums, hlength, hrows⟩ := foldlM_addRow_eq 0 hfits
  refine ⟨sums.map fun c => c.fmod Scalar.order, ?_, ?_, isReduced_map_fmod sums, ?_⟩
  · rw [multiply, sub_eq (show 1 ≤ p.length + q.length from h), ok_bind, hsums]
    rfl
  · rw [List.length_map, hlength, List.length_replicate]
  · rw [ofCoefficients_map intCast_fmod, hrows, ofCoefficients_replicate_zero, pow_zero, one_mul,
      zero_add]

/-! ## Scalars -/

/-- A number is read back from its shortest string. -/
theorem toNatLE_ofNatShortest (n : ℕ) : Bytes.toNatLE (Bytes.ofNatShortest n) = n := by
  induction n using Bytes.ofNatShortest.induct with
  | case1 n h =>
    rw [Bytes.ofNatShortest, if_pos h, Bytes.toNatLE, UInt8.toNat_ofNat_of_lt' h]
    rfl
  | case2 n h ih =>
    rw [Bytes.ofNatShortest, if_neg h, Bytes.toNatLE, ih, UInt8.toNat_ofNat']
    exact Nat.mod_add_div n 256

/-- The shortest string of a number is no longer than one that has room for it. -/
theorem length_ofNatShortest_le {n : ℕ} (width : ℕ) (h : n < 256 ^ (width + 1)) :
    (Bytes.ofNatShortest n).length ≤ width + 1 := by
  induction width generalizing n with
  | zero =>
    rw [Bytes.ofNatShortest, if_pos (by simpa using h)]
    exact Nat.le_refl 1
  | succ width ih =>
    rw [Bytes.ofNatShortest]
    split
    · exact Nat.succ_le_succ (Nat.zero_le _)
    · rw [Nat.pow_succ] at h
      exact Nat.succ_le_succ (ih (Nat.div_lt_of_lt_mul (by rwa [Nat.mul_comm])))

/-- An integer becomes the scalar of its class: its least representative fits into the buffer. -/
theorem scalarOf_eq (n : ℤ) : scalarOf n = .ok (n : Scalar) := by
  have hlt : (n.fmod Scalar.order).natAbs < Scalar.order := by
    have := Int.fmod_nonneg_of_pos n order_pos
    have := Int.fmod_lt_of_pos n order_pos
    omega
  have hfits : (Bytes.ofNatShortest (n.fmod Scalar.order).natAbs).length ≤ Scalar.byteLength :=
    length_ofNatShortest_le 31 (Nat.lt_trans hlt Scalar.order_lt)
  rw [scalarOf, overwrite, List.length_replicate, if_pos hfits, ok_bind, List.drop_replicate]
  refine congrArg Except.ok ?_
  rw [Scalar.ofWideBytes, Bytes.toNatLE_append, toNatLE_ofNatShortest,
    Bytes.toNatLE_replicate_zero, Nat.mul_zero, Nat.add_zero, intCast_eq]

/-- Any coefficient is taken without a fault, also one past the degree. -/
theorem coefficient_eq (p : List ℤ) (k : ℕ) :
    coefficient p k = .ok ((ofCoefficients p).coeff k) := by
  rw [coeff_ofCoefficients, coefficient, List.getD_eq_getElem?_getD]
  cases p[k]? with
  | none => simp
  | some c => exact scalarOf_eq c

/-! ## Products of linear factors -/

/-- Two integers denote a linear factor. -/
theorem ofCoefficients_linear (slope constant : Scalar) :
    ofCoefficients [integerOf constant, integerOf slope] =
      Polynomial.C slope * Polynomial.X + Polynomial.C constant := by
  have hclass (x : Scalar) : ((integerOf x : ℤ) : Scalar) = x := by
    rw [integerOf, Scalar.toNatLE_toBytes, Int.cast_natCast, Scalar.natCast_val]
  simp only [ofCoefficients, hclass]
  ring

/-- Multiplying by factors one after the other. -/
theorem foldlM_multiply_eq (factors : List (Scalar × Scalar)) {p : List ℤ} (hp : 0 < p.length)
    (hreduced : IsReduced p) :
    ∃ product, factors.foldlM (fun p factor =>
          multiply p [integerOf factor.2, integerOf factor.1]) p = .ok product ∧
      product.length = p.length + factors.length ∧ IsReduced product ∧
      ofCoefficients product =
        ofCoefficients p * (factors.map linearFactor).prod := by
  induction factors generalizing p with
  | nil => exact ⟨p, rfl, rfl, hreduced, by simp⟩
  | cons factor factors ih =>
    obtain ⟨first, hfirst, hlength, hreduced', hvalue⟩ :=
      multiply_eq (q := [integerOf factor.2, integerOf factor.1]) (Nat.add_pos_left hp _)
    simp only [List.length_cons, List.length_nil] at hlength
    obtain ⟨product, hrest, hlength', hreduced'', hvalue'⟩ := ih (p := first) (by omega) hreduced'
    refine ⟨product, ?_, ?_, hreduced'', ?_⟩
    · rw [List.foldlM_cons, hfirst]
      exact hrest
    · rw [hlength', hlength, List.length_cons]
      omega
    · rw [hvalue', hvalue, ofCoefficients_linear, List.map_cons, List.prod_cons, mul_assoc]
      rfl

/-- The product of the machine has one coefficient more than there are factors, is reduced, and
denotes the product. -/
theorem multiplyFactors_eq (factors : List (Scalar × Scalar)) :
    ∃ product, multiplyFactors factors = .ok product ∧ product.length = factors.length + 1 ∧
      IsReduced product ∧ ofCoefficients product =
        (factors.map linearFactor).prod := by
  have hone : IsReduced [1] := by
    intro c hc
    rw [List.mem_singleton.mp hc]
    exact ⟨Int.one_nonneg, by decide⟩
  obtain ⟨product, hrun, hlength, hreduced, hvalue⟩ :=
    foldlM_multiply_eq factors (p := [1]) Nat.one_pos hone
  refine ⟨product, hrun, ?_, hreduced, ?_⟩
  · rw [hlength, List.length_singleton, Nat.add_comm]
  · rw [hvalue]
    simp [ofCoefficients]

/-! ## The running product -/

/-- Least representatives are known by what they denote. -/
theorem eq_of_ofCoefficients_eq {p q : List ℤ} (hlength : p.length = q.length)
    (hp : IsReduced p) (hq : IsReduced q) (h : ofCoefficients p = ofCoefficients q) : p = q := by
  refine List.ext_getElem hlength fun k hk hk' => ?_
  have hcoeff : (ofCoefficients p).coeff k = (ofCoefficients q).coeff k := by rw [h]
  rw [coeff_ofCoefficients, coeff_ofCoefficients, List.getD_eq_getElem?_getD,
    List.getD_eq_getElem?_getD, List.getElem?_eq_getElem hk, List.getElem?_eq_getElem hk',
    Option.getD_some, Option.getD_some] at hcoeff
  obtain ⟨hnonneg, hlt⟩ := hp _ (List.getElem_mem hk)
  obtain ⟨hnonneg', hlt'⟩ := hq _ (List.getElem_mem hk')
  lift p[k] to ℕ using hnonneg with m
  lift q[k] to ℕ using hnonneg' with n
  rw [Int.cast_natCast, Int.cast_natCast, Scalar.natCast_inj (by omega) (by omega)] at hcoeff
  rw [hcoeff]

/-- The product of linear factors on the machine comes out. It has one coefficient more than there
are factors, all of them least representatives, and they are the coefficients that the product of
the factors has over the scalar field, each of which fits into the buffer of a scalar. The product
of the other modules has the same coefficients. -/
theorem multiplyFactors_is_field_product (factors : List (Scalar × Scalar)) :
    ∃ p : List ℤ, multiplyFactors factors = .ok p ∧ p.length = factors.length + 1 ∧
      (∀ c ∈ p, 0 ≤ c ∧ c < Scalar.order) ∧
      (∀ k, coefficient p k = .ok ((factors.map fun factor : Scalar × Scalar =>
        Polynomial.C factor.1 * Polynomial.X + Polynomial.C factor.2).prod.coeff k)) ∧
      (∀ k, factors.length < k → coefficient p k = .ok 0) ∧
      p = (Polynomial.ofFactors factors).coefficients.map Nat.cast ∧
      ∀ k, coefficient p k = .ok ((Polynomial.ofFactors factors).coefficient k) := by
  obtain ⟨p, hrun, hlength, hreduced, hvalue⟩ := multiplyFactors_eq factors
  obtain ⟨hlength', hreduced'⟩ := Polynomial.coefficients_ofFactors factors
  have hsame : ofCoefficients ((Polynomial.ofFactors factors).coefficients.map Nat.cast) =
      ofCoefficients p := by
    rw [hvalue, ← Polynomial.denote_ofFactors]
    rfl
  refine ⟨p, hrun, hlength, hreduced, fun k => ?_, fun k hk => ?_, ?_, fun k => ?_⟩
  · rw [coefficient_eq, hvalue]
    rfl
  · rw [coefficient, List.getElem?_eq_none (by omega)]
  · refine eq_of_ofCoefficients_eq (by rw [hlength, List.length_map, hlength']) hreduced ?_
      hsame.symm
    intro c hc
    obtain ⟨n, hn, rfl⟩ := List.mem_map.mp hc
    exact ⟨Int.natCast_nonneg n, Int.ofNat_lt.mpr (hreduced' n hn)⟩
  · rw [coefficient_eq, hvalue, ← Polynomial.denote_ofFactors, Polynomial.coefficient_eq_coeff]

/-- The product of `2 * X + 3` and `-X + 5`. -/
theorem multiplyFactors_is_field_product_two :
    ∃ p : List ℤ, multiplyFactors [(.ofNat 2, .ofNat 3), (-1, .ofNat 5)] = .ok p ∧
      p = [15, 7, (Scalar.order : ℤ) - 2] ∧ ((Scalar.order : ℤ) - 2 < Scalar.order) ∧
      coefficient p 1 = .ok (.ofNat 7) ∧ coefficient p 3 = .ok 0 := by
  obtain ⟨p, hrun, -, hreduced, -, hpast, -, hcoefficient⟩ :=
    multiplyFactors_is_field_product [(.ofNat 2, .ofNat 3), (-1, .ofNat 5)]
  have hp : p = [15, 7, (Scalar.order : ℤ) - 2] := Except.ok.inj (hrun.symm.trans rfl)
  exact ⟨p, hrun, hp, (hreduced _ (by simp [hp])).2, (hcoefficient 1).trans rfl,
    hpast 3 (by decide)⟩

end ConfidentialPayment.Machine
