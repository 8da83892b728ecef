import Mathlib.Algebra.Polynomial.BigOperators
import Mathlib.Data.List.GetD
import ConfidentialPayment.Polynomial
import ConfidentialPayment.Proofs.Scalar.Field

/-!
# ConfidentialPayment.Proofs.Polynomial

What polynomials held as lists of coefficients denote.

`ofCoefficients as` is the polynomial over the scalar field with the integers `as` as coefficients,
and `denote p` is the one with the coefficients of `p`. Products denote products (`denote_mul`), so
a product of linear factors is known by its value, by the bound on its degree, and by its leading
coefficient, which is the product of the slopes. It is held with one coefficient more than it has
factors, all of them reduced (`coefficients_ofFactors`).
-/

open scoped Polynomial

namespace ConfidentialPayment.Polynomial

/-! ## Lists of coefficients -/

/-- The polynomial over the scalar field with given coefficients, the constant one first. -/
noncomputable def ofCoefficients : List ℤ → Scalar[X]
  | [] => 0
  | a :: as => Polynomial.C (a : Scalar) + Polynomial.X * ofCoefficients as

/-- The coefficient at a place of the list, zero past its end. -/
theorem coeff_ofCoefficients (as : List ℤ) (k : ℕ) :
    (ofCoefficients as).coeff k = ((as.getD k 0 : ℤ) : Scalar) := by
  induction as generalizing k with
  | nil => simp [ofCoefficients]
  | cons a as ih =>
    cases k with
    | zero => simp [ofCoefficients]
    | succ k =>
      rw [ofCoefficients, Polynomial.coeff_add, Polynomial.coeff_C_succ, Polynomial.coeff_X_mul, ih,
        zero_add, List.getD_cons_succ]

/-- Taking other representatives of the coefficients changes nothing. -/
theorem ofCoefficients_map {f : ℤ → ℤ} (h : ∀ c, ((f c : ℤ) : Scalar) = c) (as : List ℤ) :
    ofCoefficients (as.map f) = ofCoefficients as := by
  induction as with
  | nil => rfl
  | cons a as ih => rw [List.map_cons, ofCoefficients, ih, h, ofCoefficients]

/-! ## Operations on coefficients -/

/-- The polynomial over the scalar field that a polynomial stands for. -/
noncomputable def denote (p : Polynomial) : Scalar[X] := ofCoefficients (p.coefficients.map (↑))

theorem denote_nil : denote ⟨[]⟩ = 0 := rfl

/-- The first coefficient of a list is the constant one. -/
theorem denote_cons (a : ℕ) (as : List ℕ) :
    denote ⟨a :: as⟩ = Polynomial.C (a : Scalar) + Polynomial.X * denote ⟨as⟩ := by
  simp only [denote, List.map_cons, ofCoefficients, Int.cast_natCast]

/-- Adding coefficient by coefficient adds the polynomials. -/
theorem denote_addCoefficients (as bs : List ℕ) :
    denote ⟨addCoefficients as bs⟩ = denote ⟨as⟩ + denote ⟨bs⟩ := by
  induction as generalizing bs with
  | nil => simp [addCoefficients, denote_nil]
  | cons a as ih =>
    cases bs with
    | nil => simp [addCoefficients, denote_nil]
    | cons b bs =>
      simp only [addCoefficients, denote_cons, ih, Nat.cast_add, Polynomial.C_add]
      ring

/-- Scaling all coefficients scales the polynomial. -/
theorem denote_map_mul (a : ℕ) (bs : List ℕ) :
    denote ⟨bs.map (a * ·)⟩ = Polynomial.C (a : Scalar) * denote ⟨bs⟩ := by
  induction bs with
  | nil => simp [denote_nil]
  | cons b bs ih =>
    simp only [List.map_cons, denote_cons, ih, Nat.cast_mul, Polynomial.C_mul]
    ring

/-- Convolving the coefficients multiplies the polynomials. -/
theorem denote_convolve (as bs : List ℕ) :
    denote ⟨convolve as bs⟩ = denote ⟨as⟩ * denote ⟨bs⟩ := by
  induction as with
  | nil => simp [convolve, denote_nil]
  | cons a as ih =>
    simp only [convolve, denote_addCoefficients, denote_map_mul, denote_cons, ih, Nat.cast_zero,
      Polynomial.C_0]
    ring

/-- Reducing the coefficients changes nothing. -/
theorem denote_map_mod (as : List ℕ) : denote ⟨as.map (· % Scalar.order)⟩ = denote ⟨as⟩ := by
  have hcast : (as.map (· % Scalar.order)).map Nat.cast =
      (as.map Nat.cast).map fun c : ℤ => c % Scalar.order := by
    simp [Function.comp_def]
  rw [denote, hcast, ofCoefficients_map Scalar.intCast_emod, denote]

/-! ## Polynomials -/

/-- A coefficient of the list, or zero past its end, is that of the polynomial. -/
theorem coefficient_eq_coeff (p : Polynomial) (k : ℕ) :
    p.coefficient k = (denote p).coeff k := by
  have hcast : (p.coefficients.map Nat.cast).getD k 0 = ((p.coefficients.getD k 0 : ℕ) : ℤ) :=
    List.getD_map _ 0 Nat.cast
  rw [denote, coeff_ofCoefficients, hcast, Int.cast_natCast]
  rfl

theorem denote_one : denote 1 = 1 := by
  change denote ⟨[1]⟩ = 1
  simp [denote_cons, denote_nil]

theorem denote_mul (p q : Polynomial) : denote (p * q) = denote p * denote q := by
  change denote ⟨(convolve p.coefficients q.coefficients).map _⟩ = _
  rw [denote_map_mod, denote_convolve]

/-- A linear polynomial has its slope and its constant as coefficients. -/
theorem denote_linear (slope constant : Scalar) :
    denote (linear slope constant) = Polynomial.C slope * Polynomial.X + Polynomial.C constant := by
  simp only [linear, denote_cons, denote_nil, Scalar.natCast_val]
  ring

/-! ## Products of linear factors -/

/-- A linear factor over the scalar field. -/
noncomputable def linearFactor (factor : Scalar × Scalar) : Scalar[X] :=
  Polynomial.C factor.1 * Polynomial.X + Polynomial.C factor.2

/-- A product of factors denotes the product of what they denote. -/
theorem denote_ofFactors (factors : List (Scalar × Scalar)) :
    denote (ofFactors factors) = (factors.map linearFactor).prod := by
  have hfold (p : Polynomial) :
      denote (factors.foldl (fun p factor => p * linear factor.1 factor.2) p) =
        denote p * (factors.map linearFactor).prod := by
    induction factors generalizing p with
    | nil => simp
    | cons factor factors ih =>
      rw [List.foldl_cons, ih, denote_mul, denote_linear, List.map_cons, List.prod_cons, mul_assoc,
        linearFactor]
  rw [ofFactors, hfold, denote_one, one_mul]

/-- The value of a product is the product of the values. -/
theorem eval_ofFactors (factors : List (Scalar × Scalar)) (x : Scalar) :
    (denote (ofFactors factors)).eval x = (factors.map fun f => f.1 * x + f.2).prod := by
  rw [denote_ofFactors, Polynomial.eval_list_prod, List.map_map]
  congr 2
  funext factor
  simp [linearFactor]

/-- The degree of a factor is at most one. -/
theorem natDegree_linearFactor_le (factor : Scalar × Scalar) :
    (linearFactor factor).natDegree ≤ 1 :=
  Polynomial.natDegree_linear_le

/-- The leading coefficient of a factor is its slope. -/
theorem coeff_linearFactor_one (factor : Scalar × Scalar) :
    (linearFactor factor).coeff 1 = factor.1 := by
  simp [linearFactor, Polynomial.coeff_C]

/-- The degree of a product is at most the number of its factors. -/
theorem natDegree_ofFactors_le (factors : List (Scalar × Scalar)) :
    (denote (ofFactors factors)).natDegree ≤ factors.length := by
  rw [denote_ofFactors]
  refine (Polynomial.natDegree_list_prod_le _).trans ?_
  rw [List.map_map]
  refine (List.sum_le_card_nsmul _ 1 ?_).trans_eq (by simp)
  intro degree hdegree
  obtain ⟨factor, -, rfl⟩ := List.mem_map.mp hdegree
  exact natDegree_linearFactor_le factor

/-- The leading coefficient is the product of the slopes. -/
theorem coeff_ofFactors_length (factors : List (Scalar × Scalar)) :
    (denote (ofFactors factors)).coeff factors.length = (factors.map Prod.fst).prod := by
  have h := Polynomial.coeff_list_prod_of_natDegree_le (factors.map linearFactor) 1 <| by
    intro p hp
    obtain ⟨factor, -, rfl⟩ := List.mem_map.mp hp
    exact natDegree_linearFactor_le factor
  rw [List.length_map, mul_one, List.map_map] at h
  rw [denote_ofFactors, h]
  congr 2
  funext factor
  exact coeff_linearFactor_one factor

/-- A product of linear factors at a point: the terms below its degree and the leading one. -/
theorem sum_coefficient_mul_pow (factors : List (Scalar × Scalar)) (x : Scalar) :
    ∑ k ∈ Finset.range factors.length, (ofFactors factors).coefficient k * x ^ k +
      (factors.map Prod.fst).prod * x ^ factors.length =
    (factors.map fun f => f.1 * x + f.2).prod := by
  have hdegree := Nat.lt_succ_of_le (natDegree_ofFactors_le factors)
  rw [← eval_ofFactors, Polynomial.eval_eq_sum_range' hdegree, Finset.sum_range_succ,
    coeff_ofFactors_length]
  simp only [coefficient_eq_coeff]

/-! ## Coefficients of products -/

/-- The longer list of coefficients decides how long the sum is. -/
theorem length_addCoefficients (as bs : List ℕ) :
    (addCoefficients as bs).length = max as.length bs.length := by
  induction as generalizing bs with
  | nil => simp [addCoefficients]
  | cons a as ih =>
    cases bs with
    | nil => simp [addCoefficients]
    | cons b bs => simp [addCoefficients, ih, Nat.add_max_add_right]

/-- A product has all places of its terms. -/
theorem length_convolve {as bs : List ℕ} (has : 0 < as.length) (hbs : 0 < bs.length) :
    (convolve as bs).length = as.length + bs.length - 1 := by
  induction as with
  | nil => cases has
  | cons a as ih =>
    rw [convolve, length_addCoefficients, List.length_map, List.length_cons, List.length_cons]
    cases as with
    | nil => simp only [convolve, List.length_nil]; omega
    | cons a' as =>
      rw [ih (Nat.zero_lt_succ _), List.length_cons]
      omega

/-- Multiplying adds the degrees, zeros at the end included. -/
theorem length_coefficients_mul {p q : Polynomial} (hp : 0 < p.coefficients.length)
    (hq : 0 < q.coefficients.length) :
    (p * q).coefficients.length = p.coefficients.length + q.coefficients.length - 1 := by
  change ((convolve p.coefficients q.coefficients).map (· % Scalar.order)).length = _
  rw [List.length_map, length_convolve hp hq]

/-- A product has one coefficient more than it has factors, and all of them are reduced. -/
theorem coefficients_ofFactors (factors : List (Scalar × Scalar)) :
    (ofFactors factors).coefficients.length = factors.length + 1 ∧
      ∀ c ∈ (ofFactors factors).coefficients, c < Scalar.order := by
  have hfold (p : Polynomial) (hlength : 0 < p.coefficients.length)
      (hreduced : ∀ c ∈ p.coefficients, c < Scalar.order) :
      let product := factors.foldl (fun p factor => p * linear factor.1 factor.2) p
      product.coefficients.length = p.coefficients.length + factors.length ∧
        ∀ c ∈ product.coefficients, c < Scalar.order := by
    induction factors generalizing p with
    | nil => exact ⟨rfl, hreduced⟩
    | cons factor factors ih =>
      have hfirst := length_coefficients_mul hlength
        (q := linear factor.1 factor.2) (Nat.zero_lt_succ 1)
      have hreduced' : ∀ c ∈ (p * linear factor.1 factor.2).coefficients, c < Scalar.order := by
        intro c hc
        obtain ⟨n, -, rfl⟩ := List.mem_map.mp hc
        exact Nat.mod_lt n Scalar.order_pos
      simp only [linear, List.length_cons, List.length_nil] at hfirst
      obtain ⟨hrest, hall⟩ := ih _ (by rw [linear, hfirst]; omega) hreduced'
      refine ⟨?_, hall⟩
      rw [List.foldl_cons, hrest, linear, hfirst, List.length_cons]
      omega
  obtain ⟨hlength, hreduced⟩ := hfold 1 Nat.one_pos <| by
    intro c hc
    obtain rfl := List.mem_singleton.mp hc
    decide
  exact ⟨hlength.trans (Nat.add_comm _ _), hreduced⟩

end ConfidentialPayment.Polynomial
