import Mathlib.LinearAlgebra.LinearIndependent.Defs
import Mathlib.LinearAlgebra.LinearIndependent.Basic
import ConfidentialPayment.Pedersen
import ConfidentialPayment.Proofs.Suite.VectorSpace

/-!
# ConfidentialPayment.Proofs.Pedersen

Commitments are linear, and over independent generators they are injective.

Openings are vectors of five scalars and `Generators.commitLinear` is the linear map from openings
to points, so what a protocol adds up among commitments it adds up among openings. Independence is
the ideal form of the binding property: a commitment has one opening (`commit_injective`).
-/

namespace ConfidentialPayment

instance : Fintype Attribute where
  elems := ⟨Attribute.all, by decide⟩
  complete kind := by cases kind <;> decide

/-! ## Openings as vectors -/

namespace Opening

attribute [ext] Opening

@[simps] instance : Zero Opening := ⟨⟨0, 0, 0, 0, 0⟩⟩

@[simps] instance : Add Opening :=
  ⟨fun o o' => ⟨o.privateKey + o'.privateKey, o.value + o'.value, o.derivator + o'.derivator,
    o.shard + o'.shard, o.blinding + o'.blinding⟩⟩

@[simps] instance : Neg Opening :=
  ⟨fun o => ⟨-o.privateKey, -o.value, -o.derivator, -o.shard, -o.blinding⟩⟩

@[simps] instance : Sub Opening :=
  ⟨fun o o' => ⟨o.privateKey - o'.privateKey, o.value - o'.value, o.derivator - o'.derivator,
    o.shard - o'.shard, o.blinding - o'.blinding⟩⟩

@[simps] instance : SMul Scalar Opening :=
  ⟨fun x o => ⟨x * o.privateKey, x * o.value, x * o.derivator, x * o.shard, x * o.blinding⟩⟩

instance : AddCommGroup Opening where
  add_assoc _ _ _ := Opening.ext (add_assoc ..) (add_assoc ..) (add_assoc ..) (add_assoc ..)
    (add_assoc ..)
  add_comm _ _ := Opening.ext (add_comm ..) (add_comm ..) (add_comm ..) (add_comm ..)
    (add_comm ..)
  zero_add _ := Opening.ext (zero_add _) (zero_add _) (zero_add _) (zero_add _) (zero_add _)
  add_zero _ := Opening.ext (add_zero _) (add_zero _) (add_zero _) (add_zero _) (add_zero _)
  neg_add_cancel _ := Opening.ext (neg_add_cancel _) (neg_add_cancel _) (neg_add_cancel _)
    (neg_add_cancel _) (neg_add_cancel _)
  sub_eq_add_neg _ _ := Opening.ext (sub_eq_add_neg ..) (sub_eq_add_neg ..) (sub_eq_add_neg ..)
    (sub_eq_add_neg ..) (sub_eq_add_neg ..)
  nsmul := nsmulRec
  zsmul := zsmulRec

instance : Module Scalar Opening where
  one_smul _ := Opening.ext (one_mul _) (one_mul _) (one_mul _) (one_mul _) (one_mul _)
  mul_smul _ _ _ := Opening.ext (mul_assoc ..) (mul_assoc ..) (mul_assoc ..) (mul_assoc ..)
    (mul_assoc ..)
  smul_zero _ := Opening.ext (mul_zero _) (mul_zero _) (mul_zero _) (mul_zero _) (mul_zero _)
  zero_smul _ := Opening.ext (zero_mul _) (zero_mul _) (zero_mul _) (zero_mul _) (zero_mul _)
  smul_add _ _ _ := Opening.ext (mul_add ..) (mul_add ..) (mul_add ..) (mul_add ..) (mul_add ..)
  add_smul _ _ _ := Opening.ext (add_mul ..) (add_mul ..) (add_mul ..) (add_mul ..) (add_mul ..)

/-- The opening with one scalar for each attribute. -/
def ofAttributes (f : Attribute → Scalar) : Opening :=
  ⟨f .privateKey, f .value, f .derivator, f .shard, f .blinding⟩

/-- The scalar that an opening has for an attribute, as a linear map. -/
def coordinate (kind : Attribute) : Opening →ₗ[Scalar] Scalar where
  toFun o := match kind with
    | .privateKey => o.privateKey
    | .value => o.value
    | .derivator => o.derivator
    | .shard => o.shard
    | .blinding => o.blinding
  map_add' _ _ := by cases kind <;> rfl
  map_smul' _ _ := by cases kind <;> rfl

end Opening

/-! ## Commitments -/

namespace Generators

variable {P : Type} [Suite P] [LawfulGroup P] (gens : Generators P)

/-- A commitment is the sum of the attributes, each on its own generator. -/
theorem commit_eq (o : Opening) :
    gens.commit o = o.privateKey • gens.privateKey + o.value • gens.value +
      o.derivator • gens.derivator + o.shard • gens.shard + o.blinding • gens.blinding := by
  simp only [commit, weightedSum_cons, weightedSum_nil]
  abel

/-- A commitment to one attribute uses its generator and the one for blindings. -/
theorem commitTo_eq (kind : Attribute) (value blinding : Scalar) :
    gens.commitTo kind value blinding = value • gens.get kind + blinding • gens.blinding :=
  combine_eq ..

theorem commitTo_sub (kind : Attribute) (v v' s s' : Scalar) :
    gens.commitTo kind (v - v') (s - s') = gens.commitTo kind v s - gens.commitTo kind v' s' := by
  simp only [commitTo_eq]
  module

theorem commitTo_mul (kind : Attribute) (x v s : Scalar) :
    gens.commitTo kind (x * v) (x * s) = x • gens.commitTo kind v s := by
  simp only [commitTo_eq]
  module

/-- A commitment stays the same when the change of its value goes into the blinding, where its
generator is a multiple of the blinding generator. -/
theorem commitTo_shift {kind : Attribute} {key : Scalar}
    (hkey : key • gens.blinding = gens.get kind) (v v' s : Scalar) :
    gens.commitTo kind v' (s + (v - v') * key) = gens.commitTo kind v s := by
  rw [commitTo_eq, commitTo_eq, ← hkey]
  module

/-- A commitment to a value opens with everything else zero. -/
theorem commitTo_value (v s : Scalar) :
    gens.commitTo .value v s = gens.commit ⟨0, v, 0, 0, s⟩ := by
  rw [commitTo_eq, commit_eq, get]
  module

/-- Commitments to one attribute add up to a commitment to the sums. -/
theorem sum_commitTo {ι : Type} (kind : Attribute) (is : List ι) (v s : ι → Scalar) :
    (is.map fun i => gens.commitTo kind (v i) (s i)).sum =
      gens.commitTo kind (is.map v).sum (is.map s).sum := by
  induction is with
  | nil => simp [commitTo_eq]
  | cons i is ih =>
    rw [List.map_cons, List.sum_cons, ih, List.map_cons, List.sum_cons, List.map_cons,
      List.sum_cons]
    simp only [commitTo_eq]
    module

/-- Committing as a linear map. -/
def commitLinear : Opening →ₗ[Scalar] P where
  toFun := gens.commit
  map_add' o o' := by
    have h : o + o' = ⟨o.privateKey + o'.privateKey, o.value + o'.value,
      o.derivator + o'.derivator, o.shard + o'.shard, o.blinding + o'.blinding⟩ := rfl
    rw [h]
    simp only [commit_eq]
    module
  map_smul' x o := by
    have h : x • o = ⟨x * o.privateKey, x * o.value, x * o.derivator, x * o.shard,
      x * o.blinding⟩ := rfl
    rw [h]
    simp only [commit_eq, RingHom.id_apply]
    module

/-- Committing is linear. -/
theorem coe_commitLinear : ⇑gens.commitLinear = gens.commit := rfl

theorem commit_add (o o' : Opening) : gens.commit (o + o') = gens.commit o + gens.commit o' :=
  gens.commitLinear.map_add o o'

theorem commit_sub (o o' : Opening) : gens.commit (o - o') = gens.commit o - gens.commit o' :=
  gens.commitLinear.map_sub o o'

/-- Commitments add up to the commitment to the sum of their openings. -/
theorem commit_sum (os : List Opening) : gens.commit os.sum = (os.map gens.commit).sum :=
  map_list_sum gens.commitLinear os

/-- The generators weighed by any coefficients are a commitment. -/
theorem sum_smul_get (f : Attribute → Scalar) :
    ∑ kind, f kind • gens.get kind = gens.commit (.ofAttributes f) := by
  rw [commit_eq]
  simp only [Finset.univ, Fintype.elems, Finset.sum_mk, Multiset.map_coe, Multiset.sum_coe,
    Attribute.all, List.map_cons, List.map_nil, List.sum_cons, List.sum_nil, get,
    Opening.ofAttributes]
  abel

/-- The generators are independent exactly if a commitment has one opening. -/
theorem linearIndependent_iff_commit_injective :
    LinearIndependent Scalar gens.get ↔ Function.Injective gens.commit := by
  rw [Fintype.linearIndependent_iff, ← gens.coe_commitLinear,
    injective_iff_map_eq_zero gens.commitLinear]
  constructor
  · intro h o ho
    have hzero := h (Opening.coordinate · o) (by
      rw [sum_smul_get]
      exact ho)
    exact Opening.ext (hzero .privateKey) (hzero .value) (hzero .derivator) (hzero .shard)
      (hzero .blinding)
  · intro h f hf kind
    rw [sum_smul_get] at hf
    have hzero : Opening.ofAttributes f = 0 := h _ hf
    have hkind : f kind = Opening.coordinate kind (.ofAttributes f) := by cases kind <;> rfl
    rw [hkind, hzero, map_zero]

/-- Over independent generators a commitment has one opening. -/
theorem commit_injective {gens : Generators P} (h : LinearIndependent Scalar gens.get) :
    Function.Injective gens.commit :=
  gens.linearIndependent_iff_commit_injective.mp h

/-- Two of several independent generators are independent. -/
theorem linearIndependent_pair {gens : Generators P} (h : LinearIndependent Scalar gens.get)
    {kind kind' : Attribute} (hne : kind ≠ kind') :
    LinearIndependent Scalar ![gens.get kind, gens.get kind'] := by
  have hinjective : Function.Injective ![kind, kind'] := by
    intro i j hij
    fin_cases i <;> fin_cases j <;> simp_all
  have hpair : gens.get ∘ ![kind, kind'] = ![gens.get kind, gens.get kind'] := by
    funext i
    fin_cases i <;> rfl
  exact hpair ▸ h.comp _ hinjective

end Generators

end ConfidentialPayment
