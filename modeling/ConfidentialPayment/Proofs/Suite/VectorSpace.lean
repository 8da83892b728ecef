import Mathlib.Algebra.BigOperators.Group.List.Basic
import Mathlib.Algebra.BigOperators.Fin
import Mathlib.Algebra.Module.Basic
import Mathlib.Tactic.Module
import ConfidentialPayment.Proofs.Scalar.Field
import ConfidentialPayment.Suite

/-!
# ConfidentialPayment.Proofs.Suite.VectorSpace

The points of a lawful suite as a vector space over the scalars.

1. `LawfulGroup` says what the operations of a suite satisfy; here these laws become the instances
   that the algebra tactics work with, on top of the same operations.
2. `weigh xs ms` is the sum of `x • m` over corresponding entries of two lists. It is what the sums
   of a protocol are (`weightedSum_zip`), and with scalars for `ms` it is the inner product
   (`Scalar.dot_eq_weigh`), so one set of laws serves both.
-/

namespace ConfidentialPayment

/-! ## The instances -/

section Instances

variable {P : Type} [Suite P] [LawfulGroup P]

instance (priority := low) Suite.addCommGroup : AddCommGroup P where
  add_assoc := LawfulGroup.add_assoc
  add_comm := LawfulGroup.add_comm
  zero_add := LawfulGroup.zero_add
  add_zero a := (LawfulGroup.add_comm a 0).trans (LawfulGroup.zero_add a)
  neg_add_cancel := LawfulGroup.neg_add_cancel
  sub_eq_add_neg := LawfulGroup.sub_eq_add_neg
  nsmul := nsmulRec
  zsmul := zsmulRec

instance (priority := low) Suite.module : Module Scalar P where
  one_smul := LawfulGroup.one_smul
  mul_smul := LawfulGroup.mul_smul
  smul_add := LawfulGroup.smul_add
  add_smul := LawfulGroup.add_smul
  smul_zero x := by
    have h := LawfulGroup.smul_add x (0 : P) 0
    rw [add_zero] at h
    exact left_eq_add.mp h
  zero_smul a := by
    have h := LawfulGroup.add_smul 0 0 a
    rw [add_zero] at h
    exact left_eq_add.mp h

end Instances

/-! ## Sums of multiples -/

section Weigh

variable {M : Type} [AddCommGroup M] [Module Scalar M]

/-- The sum of the multiples `x • m` of corresponding entries. -/
def weigh (xs : List Scalar) (ms : List M) : M := (List.zipWith (· • ·) xs ms).sum

@[simp] theorem weigh_nil_left (ms : List M) : weigh [] ms = 0 := rfl

@[simp] theorem weigh_nil_right (xs : List Scalar) : weigh xs ([] : List M) = 0 := by
  simp [weigh]

/-- The first weight goes to the first entry. -/
@[simp] theorem weigh_cons (x : Scalar) (xs : List Scalar) (m : M) (ms : List M) :
    weigh (x :: xs) (m :: ms) = x • m + weigh xs ms := by
  simp [weigh]

/-- If the first parts match, both parts are weighed by themselves. -/
theorem weigh_append {xs xs' : List Scalar} {ms ms' : List M} (h : xs.length = ms.length) :
    weigh (xs ++ xs') (ms ++ ms') = weigh xs ms + weigh xs' ms' := by
  rw [weigh, List.zipWith_append h, List.sum_append, weigh, weigh]

/-- A sum over a list of pairs, each entry computed from its index. -/
theorem weigh_map_map {ι : Type} (is : List ι) (x : ι → Scalar) (m : ι → M) :
    weigh (is.map x) (is.map m) = (is.map fun i => x i • m i).sum := by
  induction is with
  | nil => rfl
  | cons i is ih => simp [ih]

/-- A sum over lists that are made of pieces with the same lengths. -/
theorem weigh_flatMap {ι : Type} {is : List ι} {f : ι → List Scalar} {g : ι → List M}
    (h : ∀ i ∈ is, (f i).length = (g i).length) :
    weigh (is.flatMap f) (is.flatMap g) = (is.map fun i => weigh (f i) (g i)).sum := by
  induction is with
  | nil => rfl
  | cons i is ih =>
    obtain ⟨hi, his⟩ := List.forall_mem_cons.mp h
    rw [List.flatMap_cons, List.flatMap_cons, weigh_append hi, ih his, List.map_cons,
      List.sum_cons]

/-- Scaling the weights scales the sum. -/
theorem weigh_scale (c : Scalar) (xs : List Scalar) (ms : List M) :
    weigh (xs.map (c * ·)) ms = c • weigh xs ms := by
  induction xs generalizing ms with
  | nil => simp
  | cons x xs ih =>
    cases ms with
    | nil => simp
    | cons m ms => simp [ih, mul_smul]

/-- Scaling the entries scales the sum. -/
theorem weigh_smul (c : Scalar) (xs : List Scalar) (ms : List M) :
    weigh xs (ms.map (c • ·)) = c • weigh xs ms := by
  induction xs generalizing ms with
  | nil => simp
  | cons x xs ih =>
    cases ms with
    | nil => simp
    | cons m ms => simp [ih, smul_comm c x]

theorem weigh_neg (xs : List Scalar) (ms : List M) :
    weigh (xs.map fun x => -x) ms = -weigh xs ms := by
  have h := weigh_scale (-1) xs ms
  simpa using h

theorem weigh_map_neg {α : Type} (f : α → Scalar) (is : List α) (ms : List M) :
    weigh (is.map fun i => -f i) ms = -weigh (is.map f) ms := by
  rw [← weigh_neg, List.map_map]
  rfl

theorem weigh_map_mul {α : Type} (c : Scalar) (f : α → Scalar) (is : List α) (ms : List M) :
    weigh (is.map fun i => c * f i) ms = c • weigh (is.map f) ms := by
  rw [← weigh_scale, List.map_map]
  rfl

/-- Weights that are added weigh what both weigh. -/
theorem weigh_add_left {xs ys : List Scalar} (ms : List M) (h : xs.length = ys.length) :
    weigh (List.zipWith (· + ·) xs ys) ms = weigh xs ms + weigh ys ms := by
  induction xs generalizing ys ms with
  | nil =>
    obtain rfl := List.eq_nil_of_length_eq_zero h.symm
    simp
  | cons x xs ih =>
    obtain ⟨y, ys, rfl⟩ := List.exists_cons_of_length_eq_add_one h.symm
    cases ms with
    | nil => simp
    | cons m ms =>
      simp only [List.zipWith_cons_cons, weigh_cons, ih ms (Nat.succ.inj h), add_smul]
      abel

theorem weigh_sub_left {xs ys : List Scalar} (ms : List M) (h : xs.length = ys.length) :
    weigh (List.zipWith (· - ·) xs ys) ms = weigh xs ms - weigh ys ms := by
  have hneg : List.zipWith (· - ·) xs ys = List.zipWith (· + ·) xs (ys.map fun y => -y) := by
    simp only [List.zipWith_map_right, sub_eq_add_neg]
  rw [hneg, weigh_add_left ms (by simp [h]), weigh_neg, sub_eq_add_neg]

/-- Entries that are added are weighed both. -/
theorem weigh_add_right (xs : List Scalar) {ms ns : List M} (h : ms.length = ns.length) :
    weigh xs (List.zipWith (· + ·) ms ns) = weigh xs ms + weigh xs ns := by
  induction xs generalizing ms ns with
  | nil => simp
  | cons x xs ih =>
    cases ms with
    | nil =>
      obtain rfl := List.eq_nil_of_length_eq_zero h.symm
      simp
    | cons m ms =>
      obtain ⟨n, ns, rfl⟩ := List.exists_cons_of_length_eq_add_one h.symm
      simp only [List.zipWith_cons_cons, weigh_cons, ih (Nat.succ.inj h), smul_add]
      abel

/-- Factors move between the scalars and the points that they belong to. -/
theorem weigh_mul (xs ys : List Scalar) (ms : List M) :
    weigh (List.zipWith (· * ·) xs ys) ms = weigh xs (List.zipWith (· • ·) ys ms) := by
  induction xs generalizing ys ms with
  | nil => simp
  | cons x xs ih =>
    cases ys with
    | nil => simp
    | cons y ys =>
      cases ms with
      | nil => simp
      | cons m ms => simp [ih, mul_smul]

/-- Equal weights weigh the sum of the entries. -/
theorem weigh_replicate (x : Scalar) {n : ℕ} {ms : List M} (h : ms.length = n) :
    weigh (List.replicate n x) ms = x • ms.sum := by
  induction ms generalizing n with
  | nil => simp
  | cons m ms ih =>
    subst h
    simp [List.replicate_succ, ih rfl, smul_add]

/-- The same summand on every weight. -/
theorem weigh_map_add (c : Scalar) {xs : List Scalar} {ms : List M} (h : xs.length = ms.length) :
    weigh (xs.map (· + c)) ms = weigh xs ms + c • ms.sum := by
  have hmap : xs.map (· + c) = List.zipWith (· + ·) xs (List.replicate ms.length c) := by
    apply List.ext_getElem <;> simp [h]
  rw [hmap, weigh_add_left ms (by simp [h]), weigh_replicate c rfl]

/-- Points behind the last weight do not count. -/
theorem weigh_take {xs : List Scalar} {n : ℕ} (h : xs.length = n) (ms : List M) :
    weigh xs (ms.take n) = weigh xs ms := by
  subst h
  induction xs generalizing ms with
  | nil => simp
  | cons x xs ih => cases ms <;> simp [ih]

/-- The same summand on every weight, where there are more points than weights. -/
theorem weigh_map_add_take (c : Scalar) {xs : List Scalar} {ms : List M} {n : ℕ}
    (hxs : xs.length = n) (h : n ≤ ms.length) :
    weigh (xs.map (· + c)) ms = weigh xs (ms.take n) + c • (ms.take n).sum := by
  have hms : (ms.take n).length = n := List.length_take.trans (Nat.min_eq_left h)
  rw [← weigh_take ((List.length_map _).trans hxs), weigh_map_add c (hxs.trans hms.symm)]

/-- Weights behind the last point do not count. -/
theorem weigh_take_left {ms : List M} {n : ℕ} (h : ms.length = n) (xs : List Scalar) :
    weigh (xs.take n) ms = weigh xs ms := by
  subst h
  induction ms generalizing xs with
  | nil => simp
  | cons m ms ih => cases xs <;> simp [ih]

/-- Zeros behind the other points do not count. -/
theorem weigh_append_replicate_zero (xs : List Scalar) (ms : List M) (n : ℕ) :
    weigh xs (ms ++ List.replicate n 0) = weigh xs ms := by
  induction xs generalizing ms n with
  | nil => rfl
  | cons x xs ih =>
    cases ms with
    | nil =>
      cases n with
      | zero => rfl
      | succ n =>
        have htail := ih [] n
        rw [List.nil_append, weigh_nil_right] at htail
        rw [List.nil_append, List.replicate_succ, weigh_cons, htail, smul_zero, zero_add,
          weigh_nil_right]
    | cons m ms => rw [List.cons_append, weigh_cons, ih, weigh_cons]

/-- A sum with weights computed from the indices. -/
theorem weigh_map_range {n : ℕ} {ms : List M} (h : ms.length = n) (f : ℕ → Scalar) :
    weigh ((List.range n).map f) ms = ∑ i ∈ Finset.range n, f i • ms.getD i 0 := by
  subst h
  induction ms generalizing f with
  | nil => simp
  | cons m ms ih =>
    rw [List.length_cons, List.range_succ_eq_map, List.map_cons, weigh_cons, List.map_map,
      Finset.sum_range_succ', ih (f ∘ Nat.succ), add_comm]
    rfl

/-- Weighing families is the sum over their indices. -/
theorem weigh_ofFn {n : ℕ} (x : Fin n → Scalar) (m : Fin n → M) :
    weigh (List.ofFn x) (List.ofFn m) = ∑ i, x i • m i := by
  rw [List.ofFn_eq_map, List.ofFn_eq_map, weigh_map_map, ← List.ofFn_eq_map, List.sum_ofFn]

end Weigh

/-! ## The sums of suites -/

section Sums

variable {P : Type} [Suite P] [LawfulGroup P]

/-- The sum that groups compute by a method of their own is the sum of the multiples. -/
theorem weightedSum_eq_sum (terms : List (Scalar × P)) :
    Suite.weightedSum terms = (terms.map fun t => t.1 • t.2).sum := by
  rw [LawfulGroup.weightedSum_eq, List.sum, List.foldr_map]

@[simp] theorem weightedSum_nil : Suite.weightedSum ([] : List (Scalar × P)) = 0 := by
  simp [weightedSum_eq_sum]

@[simp] theorem weightedSum_cons (t : Scalar × P) (terms : List (Scalar × P)) :
    Suite.weightedSum (t :: terms) = t.1 • t.2 + Suite.weightedSum terms := by
  simp [weightedSum_eq_sum]

@[simp] theorem weightedSum_append (terms terms' : List (Scalar × P)) :
    Suite.weightedSum (terms ++ terms') =
      Suite.weightedSum terms + Suite.weightedSum terms' := by
  simp [weightedSum_eq_sum]

@[simp] theorem weightedSum_flatMap {ι : Type} (is : List ι) (f : ι → List (Scalar × P)) :
    Suite.weightedSum (is.flatMap f) = (is.map fun i => Suite.weightedSum (f i)).sum := by
  induction is with
  | nil => simp
  | cons i is ih => simp [ih]

/-- A weighted sum of matching lists weighs one by the other. -/
@[simp] theorem weightedSum_zip (xs : List Scalar) (ps : List P) :
    Suite.weightedSum (xs.zip ps) = weigh xs ps := by
  rw [weightedSum_eq_sum, List.zip, List.map_zipWith, weigh]

@[simp] theorem combine_eq (x₁ : Scalar) (p₁ : P) (x₂ : Scalar) (p₂ : P) :
    combine x₁ p₁ x₂ p₂ = x₁ • p₁ + x₂ • p₂ := by
  simp [combine]

omit [LawfulGroup P] in
theorem sumPoints_eq_sum (points : List P) : sumPoints points = points.sum := rfl

end Sums

/-- The inner product weighs one vector by the other. -/
theorem Scalar.dot_eq_weigh (xs ys : List Scalar) : Scalar.dot xs ys = weigh xs ys := rfl

end ConfidentialPayment
