import Mathlib.Algebra.Module.Basic
import Mathlib.Data.List.GetD
import Mathlib.LinearAlgebra.Matrix.ToLin
import ConfidentialPayment.Proofs.InnerProduct.Completeness
import ConfidentialPayment.Proofs.Suite.Interpolation

/-!
# ConfidentialPayment.Proofs.InnerProduct.Soundness

Accepted inner product arguments have vectors behind them.

An extractor runs a prover again from every round with three other challenges, which gives a `Tree`
of transcripts with one commitment.

1. One round (`exists_opening_of_forks`): openings of what four challenges make of a commitment give
   an opening of the commitment. Cross terms and commitment are combinations of the openings, so
   they have coordinates; the halves of the bases have to be weighed alike, which leaves no room in
   the coordinates for anything but two vectors and their inner product.
2. All rounds (`Tree.exists_opening`): by induction on the tree, over the coordinates that the last
   scalars have on its paths.
3. `Tree.exists_vectors`: the same for the equations that a verifier checks.
-/

namespace ConfidentialPayment.InnerProduct

/-! ## One round -/

/-- Four challenges for one round: none is zero, and no two have the same square. -/
structure Forks where
  challenge : Fin 4 → Scalar
  ne_zero (m : Fin 4) : challenge m ≠ 0
  squares_injective : Function.Injective fun m => challenge m * challenge m

instance : CoeFun Forks fun _ => Fin 4 → Scalar := ⟨Forks.challenge⟩

section Fork

variable {M V : Type} [AddCommGroup M] [Module Scalar M] [AddCommGroup V] [Module Scalar V]
  (x : Forks)

/-- A cubic that vanishes at the squares of all challenges is zero. -/
theorem Forks.eq_zero_of_cubic {p₀ p₁ p₂ p₃ : M}
    (h : ∀ m, p₀ + (x m * x m) • p₁ + (x m * x m) ^ 2 • p₂ + (x m * x m) ^ 3 • p₃ = 0) :
    p₀ = 0 ∧ p₁ = 0 ∧ p₂ = 0 ∧ p₃ = 0 := by
  have hsum (m) : ∑ k : Fin 4, (x m * x m) ^ (k : ℕ) • ![p₀, p₁, p₂, p₃] k = 0 := by
    simpa [Fin.sum_univ_four] using h m
  have hzero := eq_zero_of_sum_pow_smul x.squares_injective hsum
  exact ⟨hzero 0, hzero 1, hzero 2, hzero 3⟩

/-- No challenge of a fork is zero, so its square has an inverse. -/
theorem Forks.square_mul_inverse (m : Fin 4) : x m * x m * ((x m)⁻¹ * (x m)⁻¹) = 1 := by
  have hx := x.ne_zero m
  field_simp

/-- A commitment with cross terms that is zero for all challenges consists of zeros. -/
theorem Forks.eq_zero_of_cross {c l r : M}
    (h : ∀ m, c + (x m * x m) • l + ((x m)⁻¹ * (x m)⁻¹) • r = 0) : c = 0 ∧ l = 0 ∧ r = 0 := by
  have hcubic (m) : r + (x m * x m) • c + (x m * x m) ^ 2 • l + (x m * x m) ^ 3 • (0 : M) = 0 := by
    have hscaled := congrArg ((x m * x m) • ·) (h m)
    simp only [smul_add, smul_smul, x.square_mul_inverse, smul_zero] at hscaled
    rw [smul_zero, add_zero, ← hscaled]
    module
  obtain ⟨hr, hc, hl, -⟩ := x.eq_zero_of_cubic hcubic
  exact ⟨hc, hl, hr⟩

/-- Vectors that enter one half of a commitment by the inverse of the challenge and the other half
by the challenge are made of two vectors, as a round makes them. -/
theorem Forks.eq_of_halves {a : Fin 4 → V} {c₁ c₂ l₁ l₂ r₁ r₂ : V}
    (h₁ : ∀ m, (x m)⁻¹ • a m = c₁ + (x m * x m) • l₁ + ((x m)⁻¹ * (x m)⁻¹) • r₁)
    (h₂ : ∀ m, x m • a m = c₂ + (x m * x m) • l₂ + ((x m)⁻¹ * (x m)⁻¹) • r₂) (m : Fin 4) :
    a m = x m • c₁ + (x m)⁻¹ • c₂ := by
  -- Both halves give the same vector, and the difference is a cubic in the square.
  have hcubic (m) : r₂ + (x m * x m) • (c₂ - r₁) + (x m * x m) ^ 2 • (l₂ - c₁) +
      (x m * x m) ^ 3 • -l₁ = 0 := by
    have hsame : x m • a m = (x m * x m) • (x m)⁻¹ • a m := by
      rw [smul_smul, mul_assoc, mul_inv_cancel₀ (x.ne_zero m), mul_one]
    rw [h₁, h₂] at hsame
    have hscaled := congrArg ((x m * x m) • ·) hsame
    simp only [smul_add, smul_smul, x.square_mul_inverse, mul_one] at hscaled
    rw [← sub_eq_zero] at hscaled
    rw [← hscaled]
    module
  obtain ⟨-, hr, -, hl⟩ := x.eq_zero_of_cubic hcubic
  have hlower := congrArg (x m • ·) (h₁ m)
  rw [neg_eq_zero.mp hl, ← sub_eq_zero.mp hr] at hlower
  simpa [smul_smul, ← mul_assoc, mul_inv_cancel₀ (x.ne_zero m)] using hlower

/-- One round: where points have at most one opening, openings of what four challenges make of a
commitment are openings of joined halves, and the halves open the commitment. -/
theorem exists_opening_of_forks (B : V →ₗ[Scalar] V →ₗ[Scalar] Scalar)
    {Φ : ((V × V) × (V × V) × Scalar) →ₗ[Scalar] M} (hΦ : Function.Injective Φ) {c l r : M}
    {a b : Fin 4 → V}
    (h : ∀ m,
      Φ (((x m)⁻¹ • a m, x m • a m), (x m • b m, (x m)⁻¹ • b m), B (a m) (b m)) =
        c + (x m * x m) • l + ((x m)⁻¹ * (x m)⁻¹) • r) :
    ∃ p q : V × V, c = Φ (p, q, B p.1 q.1 + B p.2 q.2) := by
  -- Modulo what has an opening, commitment and cross terms vanish for all challenges.
  have hmem : c ∈ LinearMap.range Φ ∧ l ∈ LinearMap.range Φ ∧ r ∈ LinearMap.range Φ := by
    simp only [← Submodule.Quotient.mk_eq_zero]
    refine x.eq_zero_of_cross fun m => ?_
    rw [← Submodule.Quotient.mk_smul, ← Submodule.Quotient.mk_smul, ← Submodule.Quotient.mk_add,
      ← Submodule.Quotient.mk_add, ← h m, Submodule.Quotient.mk_eq_zero]
    exact LinearMap.mem_range_self Φ _
  obtain ⟨⟨⟨⟨c₁, c₂⟩, ⟨d₁, d₂⟩, s⟩, rfl⟩, ⟨⟨⟨l₁, l₂⟩, ⟨k₁, k₂⟩, t⟩, rfl⟩,
    ⟨⟨⟨r₁, r₂⟩, ⟨j₁, j₂⟩, w⟩, rfl⟩⟩ := hmem
  simp only [← map_smul, ← map_add, Prod.smul_mk, Prod.mk_add_mk, hΦ.eq_iff, Prod.mk.injEq] at h
  -- The second vector enters the halves the other way round.
  have ha := x.eq_of_halves (fun m => (h m).1.1) fun m => (h m).1.2
  have hb := x.eq_of_halves (fun m => (h m).2.1.2) fun m => (h m).2.1.1
  have hs (m) : s - (B c₁ d₁ + B c₂ d₂) + (x m * x m) • (t - B c₁ d₂) +
      ((x m)⁻¹ * (x m)⁻¹) • (w - B c₂ d₁) = 0 := by
    have hproduct := (h m).2.2
    have hx := mul_inv_cancel₀ (x.ne_zero m)
    rw [ha m, hb m] at hproduct
    simp only [map_add, map_smul, LinearMap.add_apply, LinearMap.smul_apply, smul_eq_mul]
      at hproduct
    simp only [smul_eq_mul]
    linear_combination -hproduct + (B c₁ d₁ + B c₂ d₂) * hx
  exact ⟨⟨c₁, c₂⟩, ⟨d₁, d₂⟩, by rw [sub_eq_zero.mp (x.eq_zero_of_cross hs).1]⟩

end Fork

/-! ## Trees of transcripts -/

/-- The transcripts of a prover that is run again from every round with three other challenges: the
cross terms of a round with its challenges, and the scalars that are left after the last one. -/
inductive Tree (P : Type) : ℕ → Type
  | leaf (a b : Scalar) : Tree P 0
  | node {count : ℕ} (round : Round P) (forks : Forks) (subtrees : Fin 4 → Tree P count) :
      Tree P (count + 1)

variable {P : Type}

/-- The challenges and the proofs on the paths of a tree. -/
def Tree.transcripts (commitment : P) {count : ℕ} : Tree P count → List (List Scalar × Proof P)
  | .leaf a b => [([], ⟨[], a, b, commitment⟩)]
  | .node round forks subtrees =>
    (List.finRange 4).flatMap fun m => ((subtrees m).transcripts commitment).map
      fun (xs, proof) => (forks m :: xs, { proof with rounds := round :: proof.rounds })

/-- A transcript of a node is one of a child, with the round and the challenge in front. -/
theorem Tree.mem_transcripts_node {c : P} {count : ℕ} {round : Round P} {forks : Forks}
    {subtrees : Fin 4 → Tree P count} {t : List Scalar × Proof P} :
    t ∈ (Tree.node round forks subtrees).transcripts c ↔
      ∃ m, ∃ t' ∈ (subtrees m).transcripts c,
        (forks m :: t'.1, { t'.2 with rounds := round :: t'.2.rounds }) = t := by
  simp [transcripts]

/-- Every path has one challenge for each round, and all proofs have the commitment. -/
theorem Tree.length_of_mem_transcripts {c : P} {count : ℕ} {tree : Tree P count}
    {t : List Scalar × Proof P} (ht : t ∈ tree.transcripts c) :
    t.1.length = count ∧ t.2.commitment = c := by
  induction tree generalizing t with
  | leaf a b =>
    obtain rfl := List.mem_singleton.mp ht
    exact ⟨rfl, rfl⟩
  | node round forks subtrees ih =>
    obtain ⟨m, t', ht', rfl⟩ := mem_transcripts_node.mp ht
    obtain ⟨hlength, hcommitment⟩ := ih m ht'
    exact ⟨congrArg (· + 1) hlength, hcommitment⟩

/-! ## Coefficients -/

/-- The first entries of a list as a function of their positions. -/
def entries {M : Type} [Zero M] (n : ℕ) (ms : List M) : Fin n → M := fun i => ms.getD i 0

section Coefficients

variable {M : Type} [AddCommGroup M] [Module Scalar M] {n : ℕ}

omit [Module Scalar M] in
/-- A list is made of its entries. -/
theorem ofFn_entries {ms : List M} (h : ms.length = n) : List.ofFn (entries n ms) = ms := by
  apply List.ext_getElem
  · simp [h]
  · intro i hi hi'
    simp [entries, hi']

/-- Two halves as one vector. -/
def joinHalves (n : ℕ) : ((Fin n → Scalar) × (Fin n → Scalar)) ≃ₗ[Scalar] (Fin (n + n) → Scalar) :=
  (LinearEquiv.sumArrowLequivProdArrow _ _ Scalar Scalar).symm ≪≫ₗ
    LinearEquiv.funCongrLeft Scalar Scalar finSumFinEquiv.symm

/-- Joining two halves appends the second one to the first. -/
theorem joinHalves_apply (a b : Fin n → Scalar) : joinHalves n (a, b) = Fin.append a b := by
  funext i
  induction i using Fin.addCases with
  | left i => simp [joinHalves]
  | right i =>
    rw [Fin.append_right]
    simp only [joinHalves, LinearEquiv.trans_apply, LinearEquiv.funCongrLeft_apply,
      LinearMap.funLeft_apply, finSumFinEquiv_symm_apply_natAdd]
    rfl

/-- The inner product of two vectors is the sum of those of their halves. -/
theorem dotProduct_joinHalves (p q : (Fin n → Scalar) × (Fin n → Scalar)) :
    dotProduct (joinHalves n p) (joinHalves n q) =
      dotProduct p.1 q.1 + dotProduct p.2 q.2 := by
  obtain ⟨p, p'⟩ := p
  obtain ⟨q, q'⟩ := q
  rw [joinHalves_apply, joinHalves_apply]
  simp only [dotProduct, Fin.sum_univ_add, Fin.append_left, Fin.append_right]

/-- The entries of an appended list are those of its parts, joined. -/
theorem entries_append {xs ys : List Scalar} (h : xs.length = n) :
    entries (n + n) (xs ++ ys) = joinHalves n (entries n xs, entries n ys) := by
  rw [joinHalves_apply]
  funext i
  induction i using Fin.addCases with
  | left i =>
    rw [Fin.append_left]
    exact List.getD_append _ _ _ _ (h.symm ▸ i.isLt)
  | right i =>
    rw [Fin.append_right, entries, Fin.val_natAdd,
      List.getD_append_right _ _ _ _ (h.symm ▸ Nat.le_add_right n i), h, Nat.add_sub_cancel_left]
    rfl

/-- Scaling a list scales its entries. -/
theorem entries_map_mul (c : Scalar) (xs : List Scalar) :
    entries n (xs.map (c * ·)) = c • entries n xs := by
  funext i
  have hget := List.getD_map (l := xs) (d := 0) (n := i) (c * ·)
  rwa [mul_zero] at hget

/-- The coefficients of a point over two lists of `n` bases each and one more base. -/
abbrev Coefficients (n : ℕ) : Type := (Fin n → Scalar) × (Fin n → Scalar) × Scalar

/-- The point with given coefficients. -/
def combination (n : ℕ) (g h : List M) (u : M) : Coefficients n →ₗ[Scalar] M :=
  (Fintype.linearCombination Scalar (entries n g)).coprod
    ((Fintype.linearCombination Scalar (entries n h)).coprod (LinearMap.toSpanSingleton Scalar M u))

/-- A combination weighs both lists of generators and `u`. -/
theorem combination_apply {g h : List M} (hg : g.length = n) (hh : h.length = n) (u : M)
    (c : Coefficients n) : combination n g h u c =
      weigh (List.ofFn c.1) g + weigh (List.ofFn c.2.1) h + c.2.2 • u := by
  rw [← ofFn_entries hg, ← ofFn_entries hh, weigh_ofFn, weigh_ofFn, ofFn_entries hg,
    ofFn_entries hh, add_assoc]
  rfl

/-- Over independent bases a point has one list of coefficients. -/
theorem combination_injective {g h : List M} {u : M} (hg : g.length = n) (hh : h.length = n)
    (hind : LinearIndependent Scalar (g ++ h ++ [u]).get) :
    Function.Injective (combination n g h u) := by
  have hweigh (c : Coefficients n) : combination n g h u c =
      weigh (List.ofFn c.1 ++ List.ofFn c.2.1 ++ [c.2.2]) (g ++ h ++ [u]) := by
    rw [combination_apply hg hh, weigh_append (by simp [hg, hh]), weigh_append (by simp [hg])]
    simp
  intro c c' heq
  rw [hweigh, hweigh] at heq
  have hlists := weigh_injective hind (by simp [hg, hh]) (by simp [hg, hh]) heq
  obtain ⟨hvectors, hlast⟩ := List.append_inj hlists (by simp)
  obtain ⟨hfirst, hsecond⟩ := List.append_inj hvectors (by simp)
  exact Prod.ext (List.ofFn_injective hfirst)
    (Prod.ext (List.ofFn_injective hsecond) (List.singleton_injective hlast))

/-- The coefficients with given halves. -/
def joinCoefficients (n : ℕ) : (((Fin n → Scalar) × (Fin n → Scalar)) ×
    ((Fin n → Scalar) × (Fin n → Scalar)) × Scalar) →ₗ[Scalar] Coefficients (n + n) :=
  (joinHalves n).toLinearMap.prodMap ((joinHalves n).toLinearMap.prodMap LinearMap.id)

/-- Joined coefficients determine their halves. -/
theorem joinCoefficients_injective : Function.Injective (joinCoefficients n) :=
  (joinHalves n).injective.prodMap ((joinHalves n).injective.prodMap Function.injective_id)

/-- The coefficients over the bases of a round, for coefficients over the joined bases. -/
def spread (n : ℕ) (x : Scalar) : Coefficients n →ₗ[Scalar] Coefficients (n + n) :=
  joinCoefficients n ∘ₗ ((x⁻¹ • LinearMap.id).prod (x • LinearMap.id)).prodMap
    (((x • LinearMap.id).prod (x⁻¹ • LinearMap.id)).prodMap LinearMap.id)

/-- Coefficients of folded generators, spread over the generators of both halves. -/
theorem spread_apply (x : Scalar) (a b : Fin n → Scalar) (s : Scalar) :
    spread n x (a, b, s) = (joinHalves n (x⁻¹ • a, x • a), joinHalves n (x • b, x⁻¹ • b), s) := rfl

/-- Spreading by a challenge that is not zero loses nothing. -/
theorem spread_injective {x : Scalar} (hx : x ≠ 0) : Function.Injective (spread n x) := by
  rintro ⟨a, b, s⟩ ⟨a', b', s'⟩ h
  simp only [spread_apply, Prod.mk.injEq, (joinHalves n).injective.eq_iff] at h
  obtain ⟨⟨-, ha⟩, ⟨hb, -⟩, rfl⟩ := h
  rw [smul_right_injective _ hx ha, smul_right_injective _ hx hb]

end Coefficients

/-! ## Extraction -/

variable [Suite P] [LawfulGroup P]

/-- What the transcript of a path says, in coefficients: over the bases with their weights, the
scalars that are left give the commitment with all cross terms. -/
def UnfoldsTo {n : ℕ} (Φ : Coefficients n →ₗ[Scalar] P) (c : P)
    (t : List Scalar × Proof P) : Prop :=
  Φ (t.2.a • entries n (foldWeights t.1), t.2.b • entries n (foldWeights t.1).reverse,
      t.2.a * t.2.b) =
    c + weigh (t.1.map fun x => x * x) (t.2.rounds.map Round.left) +
      weigh (t.1.map fun x => x⁻¹ * x⁻¹) (t.2.rounds.map Round.right)

/-- The equation of a verifier in coefficients. -/
theorem unfoldsTo_combination {n : ℕ} {u : P} {g h : List P} (hg : g.length = n)
    (hh : h.length = n) {c : P} {t : List Scalar × Proof P} (hlength : 2 ^ t.1.length = n)
    (ht : Unfolds u g h c t.1 t.2.rounds t.2.a t.2.b) : UnfoldsTo (combination n g h u) c t := by
  have hofFn (s : Scalar) {ws : List Scalar} (hws : ws.length = n) :
      List.ofFn (s • entries n ws) = ws.map (s * ·) := by
    rw [← entries_map_mul, ofFn_entries ((List.length_map _).trans hws)]
  have hweights : (foldWeights t.1).length = n := (length_foldWeights t.1).trans hlength
  rw [UnfoldsTo, ← ht, combination_apply hg hh, hofFn _ hweights,
    hofFn _ ((List.length_reverse).trans hweights), weigh_scale, weigh_scale]

/-- Behind the first challenge of a path the rest of it unfolds over the joined bases. -/
theorem UnfoldsTo.tail {n : ℕ} {Φ : Coefficients (n + n) →ₗ[Scalar] P} {c : P} {x : Scalar}
    (hx : x ≠ 0) {xs : List Scalar} {r : Round P} {proof : Proof P} (hlength : 2 ^ xs.length = n)
    (h : UnfoldsTo Φ c (x :: xs, { proof with rounds := r :: proof.rounds })) :
    UnfoldsTo (Φ ∘ₗ spread n x) (c + (x * x) • r.left + (x⁻¹ * x⁻¹) • r.right) (xs, proof) := by
  have hweights : (foldWeights xs).length = n := (length_foldWeights xs).trans hlength
  have hreverse : (foldWeights xs).reverse.length = n := List.length_reverse.trans hweights
  have hspread : (proof.a • entries (n + n) (foldWeights (x :: xs)),
      proof.b • entries (n + n) (foldWeights (x :: xs)).reverse, proof.a * proof.b) =
        spread n x (proof.a • entries n (foldWeights xs),
          proof.b • entries n (foldWeights xs).reverse, proof.a * proof.b) := by
    rw [spread_apply, foldWeights_cons hx, List.reverse_append, ← List.map_reverse,
      ← List.map_reverse, entries_append ((List.length_map _).trans hweights),
      entries_append ((List.length_map _).trans hreverse), ← map_smul, ← map_smul]
    simp only [entries_map_mul, Prod.smul_mk, smul_comm x, smul_comm x⁻¹]
  rw [UnfoldsTo, LinearMap.comp_apply, ← hspread]
  refine h.trans ?_
  simp only [List.map_cons, weigh_cons]
  abel

/-- All rounds: where points have at most one opening, a tree of transcripts that unfold one
commitment gives vectors with their inner product as an opening of it. -/
theorem Tree.exists_opening {count : ℕ} (tree : Tree P count) {n : ℕ} (hn : n = 2 ^ count)
    {Φ : Coefficients n →ₗ[Scalar] P} (hΦ : Function.Injective Φ) {shown c : P}
    (h : ∀ t ∈ tree.transcripts shown, UnfoldsTo Φ c t) :
    ∃ a b, c = Φ (a, b, dotProduct a b) := by
  induction tree generalizing n c with
  | leaf a b =>
    obtain rfl : n = 1 := hn
    have hleaf := h _ (List.mem_singleton_self _)
    have hproduct : dotProduct (a • entries 1 [1]) (b • entries 1 [1]) = a * b := by
      simp [dotProduct, entries]
    refine ⟨a • entries 1 [1], b • entries 1 [1], ?_⟩
    rw [hproduct]
    simpa [UnfoldsTo, foldWeights] using hleaf.symm
  | node r x subtrees ih =>
    rw [Nat.pow_succ, mul_two] at hn
    subst hn
    have hopened (m) := ih m rfl (hΦ.comp (spread_injective (x.ne_zero m))) fun t ht =>
      (h _ (mem_transcripts_node.mpr ⟨m, t, ht, rfl⟩)).tail (x.ne_zero m)
        (congrArg (2 ^ ·) (length_of_mem_transcripts ht).1)
    choose a b hab using hopened
    have hjoined : Function.Injective (Φ ∘ₗ joinCoefficients _) :=
      hΦ.comp joinCoefficients_injective
    obtain ⟨p, q, hc⟩ := exists_opening_of_forks x (dotProductBilin Scalar Scalar) hjoined
      fun m => (hab m).symm
    refine ⟨joinHalves _ p, joinHalves _ q, hc.trans ?_⟩
    rw [dotProduct_joinHalves]
    rfl

/-! ## Honest provers -/

/-- The transcripts of an honest prover that is run again with the same challenges each round. -/
def Tree.honest (u : P) (x : Forks) : (count : ℕ) → Vectors P → Tree P count
  | 0, v => .leaf (v.a.headD 0) (v.b.headD 0)
  | count + 1, v => .node (v.cross u (2 ^ count)) x fun m =>
      honest u x count (v.fold (x m) (2 ^ count))

/-- All transcripts of an honest prover unfold the commitment of its vectors. -/
theorem Tree.unfolds_honest {u shown : P} (x : Forks) {count : ℕ} {v : Vectors P}
    (hv : v.HasLength (2 ^ count)) {t : List Scalar × Proof P}
    (ht : t ∈ (honest u x count v).transcripts shown) :
    Unfolds u v.g v.h (v.commitment u) t.1 t.2.rounds t.2.a t.2.b := by
  induction count generalizing v t with
  | zero =>
    obtain rfl := List.mem_singleton.mp ht
    exact unfolds_nil hv
  | succ count ih =>
    have hhalves : v.HasLength (2 ^ count + 2 ^ count) := by rwa [← mul_two, ← Nat.pow_succ]
    obtain ⟨m, t', ht', rfl⟩ := mem_transcripts_node.mp ht
    obtain rfl := (length_of_mem_transcripts ht').1
    exact (ih (hhalves.fold _) ht').cons hhalves (x.ne_zero m)

/-! ## Special soundness -/

/-- Special soundness: over independent bases, a tree of transcripts with one commitment that all
pass the equation of the verifier has vectors of length `2 ^ count` behind it, which the commitment
commits to, together with their inner product. -/
theorem Tree.exists_vectors {count : ℕ} (tree : Tree P count) {u : P} {g h : List P}
    {factors : List Scalar} (hg : g.length = 2 ^ count) (hh : h.length = 2 ^ count)
    (hfactors : factors.length = 2 ^ count)
    (hind : LinearIndependent Scalar (g ++ List.zipWith (· • ·) factors h ++ [u]).get) {c : P}
    (haccepted : ∀ t ∈ tree.transcripts c, (equation u g h factors t.1 t.2).Holds) :
    ∃ a b : List Scalar, a.length = 2 ^ count ∧ b.length = 2 ^ count ∧
      c = Vectors.commitment u ⟨g, List.zipWith (· • ·) factors h, a, b⟩ := by
  have hrescaled : (List.zipWith (· • ·) factors h).length = 2 ^ count := by
    simp [hfactors, hh]
  have hunfolds : ∀ t ∈ tree.transcripts c,
      UnfoldsTo (combination (2 ^ count) g (List.zipWith (· • ·) factors h) u) c t := by
    intro t ht
    obtain ⟨hlength, hcommitment⟩ := length_of_mem_transcripts ht
    have hequation := equation_holds_iff.mp (haccepted t ht)
    rw [hcommitment] at hequation
    exact unfoldsTo_combination hg hrescaled (congrArg (2 ^ ·) hlength) hequation
  obtain ⟨a, b, hc⟩ :=
    tree.exists_opening rfl (combination_injective hg hrescaled hind) hunfolds
  refine ⟨List.ofFn a, List.ofFn b, List.length_ofFn, List.length_ofFn, hc.trans ?_⟩
  rw [combination_apply hg hrescaled, commitment_eq, weigh_ofFn a b]
  rfl

/-- The challenges one to four. -/
def Forks.small : Forks where
  challenge m := .ofNat (m + 1)
  ne_zero := by decide
  squares_injective := by decide

/-- An honest prover with vectors of length four, over units. -/
theorem Tree.exists_vectors_units :
    let g := [0, 1, 2, 3].map Coordinates.unit
    let h := [(1 : Scalar)⁻¹ • Coordinates.unit 4, (2 : Scalar)⁻¹ • Coordinates.unit 5,
      (3 : Scalar)⁻¹ • Coordinates.unit 6, (4 : Scalar)⁻¹ • Coordinates.unit 7]
    ∃ (tree : Tree (Coordinates ℕ) 2) (c : Coordinates ℕ),
      (∀ t ∈ tree.transcripts c, (equation (.unit 8) g h [1, 2, 3, 4] t.1 t.2).Holds) ∧
      (tree.transcripts c).length = 16 ∧
      ∃ a b : List Scalar, a.length = 4 ∧ b.length = 4 ∧ c = Vectors.commitment (.unit 8)
        ⟨g, List.zipWith (· • ·) [1, 2, 3, 4] h, a, b⟩ := by
  intro g h
  let v : Vectors (Coordinates ℕ) :=
    ⟨g, List.zipWith (· • ·) [1, 2, 3, 4] h, [5, 6, 7, 8], [9, 10, 11, 12]⟩
  let tree := Tree.honest (.unit 8) .small 2 v
  let c := v.commitment (.unit 8)
  have hv : v.HasLength (2 ^ 2) := ⟨rfl, rfl, rfl, rfl⟩
  have haccepted : ∀ t ∈ tree.transcripts c,
      (equation (.unit 8) g h [1, 2, 3, 4] t.1 t.2).Holds := by
    intro t ht
    rw [equation_holds_iff, (length_of_mem_transcripts ht).2]
    exact unfolds_honest .small hv ht
  have hscaled : List.zipWith (· • ·) [1, 2, 3, 4] h = [4, 5, 6, 7].map Coordinates.unit := by
    have hcancel {s : Scalar} (hs : s ≠ 0) (i : ℕ) :
        s • s⁻¹ • Coordinates.unit i = Coordinates.unit i := smul_inv_smul₀ hs _
    show [(1 : Scalar) • (1 : Scalar)⁻¹ • Coordinates.unit 4, (2 : Scalar) • (2 : Scalar)⁻¹ • _,
      (3 : Scalar) • (3 : Scalar)⁻¹ • _, (4 : Scalar) • (4 : Scalar)⁻¹ • _] = _
    rw [hcancel (by decide), hcancel (by decide), hcancel (by decide), hcancel (by decide)]
    rfl
  have hind : LinearIndependent Scalar
      (g ++ List.zipWith (· • ·) [1, 2, 3, 4] h ++ [Coordinates.unit 8]).get := by
    rw [hscaled]
    have hnodup : [0, 1, 2, 3, 4, 5, 6, 7, 8].Nodup := by decide
    exact Coordinates.linearIndependent_units hnodup
  exact ⟨tree, c, haccepted, rfl, tree.exists_vectors rfl rfl rfl hind haccepted⟩

end ConfidentialPayment.InnerProduct
