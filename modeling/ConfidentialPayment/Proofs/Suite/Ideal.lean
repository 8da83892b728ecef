import Mathlib.LinearAlgebra.LinearIndependent.Lemmas
import ConfidentialPayment.GeneratorTable
import ConfidentialPayment.Proofs.Pedersen

/-!
# ConfidentialPayment.Proofs.Suite.Ideal

Lawful suites of any dimension.

1. In the first one the points are the openings themselves, and every commitment is its own
   opening.
2. In the others the points are vectors with coordinates of any kind. With one coordinate all
   points are multiples of a single one.
3. In the last one a point is its logarithm, which also encodes it. Of all of them only this one
   can be written and read.

All challenges are one. No real group is like that, but statements about all lawful suites have
their examples here.
-/

namespace ConfidentialPayment

instance Suite.ideal : Suite Opening where
  decEq := inferInstance
  weightedSum terms := terms.foldr (fun term sum => term.1 • term.2 + sum) 0
  basepoint := 0
  encode o := o.privateKey.toBytes ++ o.value.toBytes ++ o.derivator.toBytes ++ o.shard.toBytes ++
    o.blinding.toBytes
  decode? _ := none
  ofUniform _ := 0
  challenge _ _ := 1

instance : LawfulGroup Opening where
  add_assoc := add_assoc
  add_comm := add_comm
  zero_add := zero_add
  neg_add_cancel := neg_add_cancel
  sub_eq_add_neg := sub_eq_add_neg
  one_smul := one_smul Scalar
  mul_smul := mul_smul
  smul_add := smul_add
  add_smul := add_smul
  weightedSum_eq _ := rfl

/-- Every field has its own bytes in the encoding. -/
theorem Suite.encode_injective_ideal :
    Function.Injective (Suite.encode : Opening → Bytes) := by
  intro o o' h
  have hlength (x y : Scalar) : x.toBytes.length = y.toBytes.length := by
    rw [Scalar.length_toBytes, Scalar.length_toBytes]
  obtain ⟨h, hblinding⟩ := List.append_inj' h (hlength _ _)
  obtain ⟨h, hshard⟩ := List.append_inj' h (hlength _ _)
  obtain ⟨h, hderivator⟩ := List.append_inj' h (hlength _ _)
  obtain ⟨hprivateKey, hvalue⟩ := List.append_inj' h (hlength _ _)
  exact Opening.ext (Scalar.toBytes_inj.mp hprivateKey) (Scalar.toBytes_inj.mp hvalue)
    (Scalar.toBytes_inj.mp hderivator) (Scalar.toBytes_inj.mp hshard)
    (Scalar.toBytes_inj.mp hblinding)

namespace Generators

/-- The unit vectors. -/
def ideal : Generators Opening where
  privateKey := ⟨1, 0, 0, 0, 0⟩
  value := ⟨0, 1, 0, 0, 0⟩
  derivator := ⟨0, 0, 1, 0, 0⟩
  shard := ⟨0, 0, 0, 1, 0⟩
  blinding := ⟨0, 0, 0, 0, 1⟩

/-- A commitment is its own opening. -/
theorem commit_ideal (o : Opening) : ideal.commit o = o := by
  rw [commit_eq]
  ext : 1 <;> simp [ideal]

/-- The unit vectors are independent. -/
theorem linearIndependent_ideal : LinearIndependent Scalar ideal.get := by
  rw [linearIndependent_iff_commit_injective]
  intro o o' h
  rwa [commit_ideal, commit_ideal] at h

end Generators

/-- A table of neutral bases, which every capacity has. -/
def GeneratorTable.neutral (P : Type) [Suite P] (capacity : ℕ) : GeneratorTable P where
  g := List.replicate capacity 0
  h := List.replicate capacity 0
  u := 0
  length_eq := rfl

@[simp] theorem GeneratorTable.capacity_neutral (P : Type) [Suite P] (capacity : ℕ) :
    (neutral P capacity).capacity = capacity := List.length_replicate

/-! ## Coordinates -/

/-- A point as its coordinates. -/
def Coordinates (ι : Type) : Type := ι → Scalar

namespace Coordinates

variable {ι : Type}

instance : AddCommGroup (Coordinates ι) := inferInstanceAs (AddCommGroup (ι → Scalar))

instance : Module Scalar (Coordinates ι) := inferInstanceAs (Module Scalar (ι → Scalar))

noncomputable instance : Suite (Coordinates ι) where
  decEq := Classical.decEq _
  weightedSum terms := terms.foldr (fun term sum => term.1 • term.2 + sum) 0
  basepoint := 0
  encode _ := []
  decode? _ := none
  ofUniform _ := 0
  challenge _ _ := 1

instance : LawfulGroup (Coordinates ι) where
  add_assoc := add_assoc
  add_comm := add_comm
  zero_add := zero_add
  neg_add_cancel := neg_add_cancel
  sub_eq_add_neg := sub_eq_add_neg
  one_smul := one_smul Scalar
  mul_smul := mul_smul
  smul_add := smul_add
  add_smul := add_smul
  weightedSum_eq _ := rfl

/-- The point with one coordinate. -/
noncomputable def unit (i : ℕ) : Coordinates ℕ := Pi.single i 1

/-- Different units are independent. -/
theorem linearIndependent_units {is : List ℕ} (h : is.Nodup) :
    LinearIndependent Scalar (is.map unit).get := by
  have hunits : LinearIndependent Scalar unit := Pi.linearIndependent_single_one ℕ Scalar
  have hget : (is.map unit).get = unit ∘ fun i => is.get (i.cast (List.length_map unit)) := by
    funext i
    simp
  rw [hget]
  refine hunits.comp _ fun i j hij => ?_
  exact Fin.cast_injective _ (List.nodup_iff_injective_get.mp h hij)

end Coordinates

/-- Units as generators. -/
noncomputable def Generators.units : Generators (Coordinates ℕ) :=
  ⟨.unit 0, .unit 1, .unit 2, .unit 3, .unit 4⟩

/-- Units behind those of the generators as a table. -/
noncomputable def GeneratorTable.units (capacity : ℕ) : GeneratorTable (Coordinates ℕ) where
  g := (List.range capacity).map fun i => .unit (2 * i + 6)
  h := (List.range capacity).map fun i => .unit (2 * i + 7)
  u := .unit 5
  length_eq := by simp

/-- The unit of the line, five times. -/
def Generators.line : Generators (Coordinates Unit) :=
  let unit : Coordinates Unit := fun _ => 1
  ⟨unit, unit, unit, unit, unit⟩

/-- All points of the line are multiples of the blinding generator. -/
theorem Generators.bijective_line :
    Function.Bijective fun a : Scalar => a • Generators.line.blinding := by
  refine ⟨fun a b h => ?_, fun p => ⟨p (), funext fun _ => mul_one _⟩⟩
  have happ : a * 1 = b * 1 := congrFun h ()
  rwa [mul_one, mul_one] at happ

/-! ## Logarithms -/

/-- A point as its logarithm. -/
def Logarithm : Type := Scalar

namespace Logarithm

instance : AddCommGroup Logarithm := inferInstanceAs (AddCommGroup Scalar)

instance : Module Scalar Logarithm := inferInstanceAs (Module Scalar Scalar)

instance : Suite Logarithm where
  decEq := inferInstanceAs (DecidableEq Scalar)
  weightedSum terms := terms.foldr (fun term sum => term.1 • term.2 + sum) 0
  basepoint := (1 : Scalar)
  encode := Scalar.toBytes
  decode? bs := (Scalar.ofBytes bs).toOption
  ofUniform := Scalar.ofWideBytes
  challenge _ _ := 1

instance : LawfulGroup Logarithm where
  add_assoc := add_assoc
  add_comm := add_comm
  zero_add := zero_add
  neg_add_cancel := neg_add_cancel
  sub_eq_add_neg := sub_eq_add_neg
  one_smul := one_smul Scalar
  mul_smul := mul_smul
  smul_add := smul_add
  add_smul := add_smul
  weightedSum_eq _ := rfl

instance : LawfulEncoding Logarithm where
  length_encode := Scalar.length_toBytes
  decode_encode a := congrArg Except.toOption (Scalar.ofBytes_toBytes a)
  encode_of_decode {bs a} h := by
    change (Scalar.ofBytes bs).toOption = some a at h
    cases hread : Scalar.ofBytes bs with
    | error e =>
      rw [hread] at h
      cases h
    | ok x =>
      rw [hread] at h
      cases h
      exact Scalar.toBytes_of_ofBytes hread

end Logarithm

/-- Generators with different logarithms. -/
def Generators.logarithms : Generators Logarithm :=
  ⟨.ofNat 1, .ofNat 2, .ofNat 3, .ofNat 4, .ofNat 5⟩

end ConfidentialPayment
