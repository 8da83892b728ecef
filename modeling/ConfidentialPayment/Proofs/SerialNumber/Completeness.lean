import Mathlib.Algebra.Module.Basic
import ConfidentialPayment.Coin
import ConfidentialPayment.Proofs.Equation
import ConfidentialPayment.Proofs.Pedersen
import ConfidentialPayment.Proofs.Runs
import ConfidentialPayment.Proofs.Suite.Ideal
import ConfidentialPayment.SerialNumber.Hidden
import ConfidentialPayment.SerialNumber.Revealed

/-!
# ConfidentialPayment.Proofs.SerialNumber.Completeness

Which honest proofs about serial numbers are accepted.

Both kinds of proofs rest on one equation, `(k + d) • s = base`, which is what `deriveSerial` makes
of a private key `k` and a derivator `d` (`deriveSerial_eq_ok_iff`). An honest prover may hold
secrets that do not fit its statement: `relations` lists what they have to fulfil, and every
equation of a verifier is one of the relations times the challenge (`Hidden.equations_isScaled`,
`Revealed.equations_isScaled`). So each relation is checked by its own equation and no other.
-/

namespace ConfidentialPayment

variable {P : Type} [Suite P] [LawfulGroup P]

/-- A serial number can be derived unless key and derivator cancel, and it is the only solution of
its equation. -/
theorem deriveSerial_eq_ok_iff {base serial : P} {k d : Scalar} :
    deriveSerial base k d = .ok serial ↔ k + d ≠ 0 ∧ (k + d) • serial = base := by
  unfold deriveSerial Scalar.inverse?
  by_cases h : k + d = 0
  · rw [if_pos h]
    constructor
    · intro hderive
      cases hderive
    · intro hsolves
      exact absurd h hsolves.1
  · rw [if_neg h]
    constructor
    · intro hderive
      obtain rfl := Except.ok.inj hderive
      refine ⟨h, ?_⟩
      rw [Scalar.inverse_eq_inv, smul_inv_smul₀ h]
    · rintro ⟨-, rfl⟩
      simp only [Scalar.inverse_eq_inv, inv_smul_smul₀ h]

/-- The serial number of an accepted equation is the derived one. -/
theorem deriveSerial_of_smul {base serial : P} (hbase : base ≠ 0) {k d : Scalar}
    (h : (k + d) • serial = base) : deriveSerial base k d = .ok serial := by
  refine deriveSerial_eq_ok_iff.mpr ⟨fun hzero => ?_, h⟩
  rw [hzero, zero_smul] at h
  exact hbase h.symm

/-- Coins of one key with different derivators have different serial numbers. -/
theorem derivator_eq_of_deriveSerial {base serial : P} (hbase : base ≠ 0) {k d d' : Scalar}
    (h : deriveSerial base k d = .ok serial) (h' : deriveSerial base k d' = .ok serial) :
    d = d' := by
  obtain ⟨-, hsolves⟩ := deriveSerial_eq_ok_iff.mp h
  obtain ⟨-, hsolves'⟩ := deriveSerial_eq_ok_iff.mp h'
  have hne : serial ≠ 0 := by
    rintro rfl
    rw [smul_zero] at hsolves
    exact hbase hsolves.symm
  have hdifference : (d - d') • serial = 0 := by
    rw [show d - d' = (k + d) - (k + d') by ring, sub_smul, hsolves, hsolves', sub_self]
  exact sub_eq_zero.mp ((smul_eq_zero.mp hdifference).resolve_right hne)

/-- Different scalars divide a point into different points. -/
theorem inv_smul_injective {p : P} (hp : p ≠ 0) : Function.Injective fun x : Scalar => x⁻¹ • p :=
  (smul_left_injective Scalar hp).comp inv_injective

namespace SerialNumber

variable {gens : Generators P}

/-! ## Revealed coins -/

/-- What a proof about a revealed coin is to show of a private key. -/
def Revealed.relations (gens : Generators P) (s : Statement P) (key : Scalar) :
    List (Equation P) :=
  [{ statement := 1
     left := key • gens.privateKey
     right := s.publicKey },
   { statement := 2
     left := (key + s.derivator) • s.serialNumber
     right := gens.privateKey }]

/-- The equations of an honest proof are what the key has to satisfy, times the challenge. -/
theorem Revealed.equations_isScaled (s : Statement P) (key nonce x : Scalar) :
    List.Forall₂ (Equation.IsScaled x)
      (equations gens s x (commit gens s nonce) (respond key nonce x)) (relations gens s key) := by
  refine .cons ⟨rfl, ?_⟩ (.cons ⟨rfl, ?_⟩ .nil)
  · simp only [Equation.residual, commit, respond]
    module
  · simp only [Equation.residual, commit, respond]
    module

/-- With the right key the equations hold at every challenge. -/
theorem Revealed.equations_hold {s : Statement P} {key : Scalar} (nonce x : Scalar)
    (hkey : s.publicKey = key • gens.privateKey)
    (hserial : (key + s.derivator) • s.serialNumber = gens.privateKey) :
    ∀ e ∈ equations gens s x (commit gens s nonce) (respond key nonce x), e.Holds := by
  refine Equation.forall_holds_of_scaled (equations_isScaled s key nonce x) ?_
  simp [relations, Equation.Holds, hkey, hserial]

/-- An honest proof passes if the challenge is zero, and else it fails where the key does. -/
theorem Revealed.verify_proveWith_eq (s : Statement P) (key nonce : Scalar) :
    (proveWith gens s key nonce).verify gens s =
      if challenge s (commit gens s nonce) = 0 then .ok ()
      else Equation.checkAll .revealedSerial (relations gens s key) :=
  Equation.checkAll_of_scaled (equations_isScaled s key nonce _)

/-- An honest proof about a revealed coin is accepted. -/
theorem Revealed.verify_proveWith {s : Statement P} {key : Scalar} (nonce : Scalar)
    (hkey : s.publicKey = key • gens.privateKey)
    (hserial : (key + s.derivator) • s.serialNumber = gens.privateKey) :
    (proveWith gens s key nonce).verify gens s = .ok () :=
  Equation.checkAll_eq_ok_iff.mpr (equations_hold nonce _ hkey hserial)

/-! ## Hidden coins -/

/-- A witness opens both commitments of a statement and has the key and the derivator of the serial
number. -/
structure Hidden.Witness.Opens (gens : Generators P) (w : Hidden.Witness)
    (s : Hidden.Statement P) : Prop where
  key : s.keyCommitment = gens.commitTo .privateKey w.key w.keyBlinding
  derivator : s.derivatorCommitment = gens.commitTo .derivator w.derivator w.derivatorBlinding
  serial : (w.key + w.derivator) • s.serialNumber = gens.privateKey

/-- What a proof about a hidden coin is to show of a witness. -/
def Hidden.relations (gens : Generators P) (s : Statement P) (w : Witness) : List (Equation P) :=
  [{ statement := 1
     left := s.keyCommitment
     right := w.key • gens.privateKey + w.keyBlinding • gens.blinding },
   { statement := 2
     left := s.derivatorCommitment
     right := w.derivator • gens.derivator + w.derivatorBlinding • gens.blinding },
   { statement := 3
     left := (w.key + w.derivator) • s.serialNumber
     right := gens.privateKey }]

/-- The equations of an honest proof are what the witness has to satisfy, times the challenge. -/
theorem Hidden.equations_isScaled (s : Statement P) (w : Witness) (e : Randomness) (x : Scalar) :
    List.Forall₂ (Equation.IsScaled x) (equations gens s x (commit gens s e) (w.respond e x))
      (relations gens s w) := by
  refine .cons ⟨rfl, ?_⟩ (.cons ⟨rfl, ?_⟩ (.cons ⟨rfl, ?_⟩ .nil))
  · simp only [Equation.residual, commit, Witness.respond, Generators.commitTo_eq, Generators.get]
    module
  · simp only [Equation.residual, commit, Witness.respond, Generators.commitTo_eq, Generators.get]
    module
  · simp only [Equation.residual, commit, Witness.respond]
    module

/-- With a witness that opens the statement the equations hold at every challenge. -/
theorem Hidden.equations_hold {s : Statement P} {w : Witness} (e : Randomness) (x : Scalar)
    (h : w.Opens gens s) :
    ∀ eq ∈ equations gens s x (commit gens s e) (w.respond e x), eq.Holds := by
  refine Equation.forall_holds_of_scaled (equations_isScaled s w e x) ?_
  simp [relations, Equation.Holds, h.key, h.derivator, h.serial, Generators.commitTo_eq,
    Generators.get]

/-- An honest proof passes if the challenge is zero, and else it fails where the witness does. -/
theorem Hidden.verify_proveWith_eq (s : Statement P) (w : Witness) (e : Randomness) :
    (proveWith gens s w e).verify gens s =
      if challenge s (commit gens s e) = 0 then .ok ()
      else Equation.checkAll .hiddenSerial (relations gens s w) :=
  Equation.checkAll_of_scaled (equations_isScaled s w e _)

/-- An honest proof about a hidden coin is accepted. -/
theorem Hidden.verify_proveWith {s : Statement P} {w : Witness} (e : Randomness)
    (h : w.Opens gens s) : (proveWith gens s w e).verify gens s = .ok () :=
  Equation.checkAll_eq_ok_iff.mpr (equations_hold e _ h)

/-- If the witness opens the statement, the proof is accepted, on every tape. -/
theorem Hidden.prove_ensures {s : Statement P} {w : Witness} (h : w.Opens gens s) :
    (liftM (prove gens s w) : DrawExcept (Proof P)).Ensures fun proof =>
      proof.verify gens s = .ok () :=
  .lift fun _ => verify_proveWith _ h

/-! ## Exact acceptance -/

variable (gens) in
/-- Whatever an honest prover draws, its proof about a serial number is accepted exactly if the
challenge is zero or the secrets fit the statement, and a rejection names the first relation that
they fail. -/
theorem verify_prove_names_first_failure :
    (∀ (s : Hidden.Statement P) (w : Hidden.Witness) (tape : RandomSource),
      let proof := ((Hidden.prove gens s w).run tape).1
      let x := Hidden.challenge s proof.commitment
      let result := proof.verify gens s
      let key := s.keyCommitment = w.key • gens.privateKey + w.keyBlinding • gens.blinding
      let derivator := s.derivatorCommitment =
        w.derivator • gens.derivator + w.derivatorBlinding • gens.blinding
      let serial := (w.key + w.derivator) • s.serialNumber = gens.privateKey
      (result = .ok () ↔ x = 0 ∨ key ∧ derivator ∧ serial) ∧
      (x ≠ 0 → ¬ key → result = .error (.rejected .hiddenSerial 1)) ∧
      (x ≠ 0 → key → ¬ derivator → result = .error (.rejected .hiddenSerial 2)) ∧
      (x ≠ 0 → key → derivator → ¬ serial → result = .error (.rejected .hiddenSerial 3))) ∧
    ∀ (s : Revealed.Statement P) (sk : Scalar) (tape : RandomSource),
      let proof := ((Revealed.prove gens s sk).run tape).1
      let x := Revealed.challenge s proof.commitment
      let result := proof.verify gens s
      let key := s.publicKey = sk • gens.privateKey
      let serial := (sk + s.derivator) • s.serialNumber = gens.privateKey
      (result = .ok () ↔ x = 0 ∨ key ∧ serial) ∧
      (x ≠ 0 → ¬ key → result = .error (.rejected .revealedSerial 1)) ∧
      (x ≠ 0 → key → ¬ serial → result = .error (.rejected .revealedSerial 2)) := by
  constructor
  · intro s w tape proof x result key derivator serial
    have hresult : result = if x = 0 then .ok () else if key then if derivator then
        if serial then .ok () else .error (.rejected .hiddenSerial 3)
        else .error (.rejected .hiddenSerial 2) else .error (.rejected .hiddenSerial 1) :=
      Hidden.verify_proveWith_eq s w (Hidden.drawRandomness.run tape).1
    grind
  · intro s sk tape proof x result key serial
    have hresult : result = if x = 0 then .ok () else if sk • gens.privateKey = s.publicKey then
        if serial then .ok () else .error (.rejected .revealedSerial 2)
        else .error (.rejected .revealedSerial 1) :=
      Revealed.verify_proveWith_eq s sk (RandomSource.scalar.run tape).1
    grind

/-- The key 3 and the derivator 5 are accepted. Another derivator fails the second relation of a
hidden coin and not only the third one; another serial number fails the third one alone; another
key fails the first relation of a revealed coin, and another derivator the second one. -/
theorem verify_prove_names_first_failure_ideal :
    let gens := Generators.ideal
    let tape : RandomSource := ⟨fun _ => .replicate 64 0, 0⟩
    let serial := (3 + 5 : Scalar)⁻¹ • gens.privateKey
    let hidden : Hidden.Statement Opening :=
      ⟨serial, gens.commitTo .privateKey 3 2, gens.commitTo .derivator 5 4⟩
    let revealed : Revealed.Statement Opening := ⟨serial, (3 : Scalar) • gens.privateKey, 5⟩
    let verifyHidden (s : Hidden.Statement Opening) (w : Hidden.Witness) :=
      ((Hidden.prove gens s w).run tape).1.verify gens s
    let verifyRevealed (s : Revealed.Statement Opening) (sk : Scalar) :=
      ((Revealed.prove gens s sk).run tape).1.verify gens s
    verifyHidden hidden ⟨3, 2, 5, 4⟩ = .ok () ∧
    verifyHidden hidden ⟨3, 2, 6, 4⟩ = .error (.rejected .hiddenSerial 2) ∧
    verifyHidden { hidden with serialNumber := 0 } ⟨3, 2, 5, 4⟩ =
      .error (.rejected .hiddenSerial 3) ∧
    verifyRevealed revealed 3 = .ok () ∧
    verifyRevealed revealed 4 = .error (.rejected .revealedSerial 1) ∧
    verifyRevealed { revealed with derivator := 6 } 3 = .error (.rejected .revealedSerial 2) := by
  intro gens tape serial hidden revealed verifyHidden verifyRevealed
  have hx : (1 : Scalar) ≠ 0 := Scalar.one_ne_zero'
  have hserial : (3 + 5 : Scalar) • serial = gens.privateKey := smul_inv_smul₀ (by decide) _
  have hkey : hidden.keyCommitment =
      (3 : Scalar) • gens.privateKey + (2 : Scalar) • gens.blinding :=
    Generators.commitTo_eq ..
  have hderivator :
      hidden.derivatorCommitment = (5 : Scalar) • gens.derivator + (4 : Scalar) • gens.blinding :=
    Generators.commitTo_eq ..
  have hpublic : revealed.publicKey = (3 : Scalar) • gens.privateKey := rfl
  have hotherDerivator : hidden.derivatorCommitment ≠
      (6 : Scalar) • gens.derivator + (4 : Scalar) • gens.blinding := by decide
  have hotherSerial : (3 + 5 : Scalar) • (0 : Opening) ≠ gens.privateKey := by decide
  have hotherKey : revealed.publicKey ≠ (4 : Scalar) • gens.privateKey := by decide
  have hdifferent : (3 + 6 : Scalar) • serial ≠ gens.privateKey := by decide +kernel
  obtain ⟨hhidden, hrevealed⟩ := verify_prove_names_first_failure gens
  exact ⟨(hhidden hidden ⟨3, 2, 5, 4⟩ tape).1.mpr (.inr ⟨hkey, hderivator, hserial⟩),
    (hhidden hidden ⟨3, 2, 6, 4⟩ tape).2.2.1 hx hkey hotherDerivator,
    (hhidden { hidden with serialNumber := 0 } ⟨3, 2, 5, 4⟩ tape).2.2.2 hx hkey hderivator
      hotherSerial,
    (hrevealed revealed 3 tape).1.mpr (.inr ⟨hpublic, hserial⟩),
    (hrevealed revealed 4 tape).2.1 hx hotherKey,
    (hrevealed { revealed with derivator := 6 } 3 tape).2.2 hx hpublic hdifferent⟩

end SerialNumber

end ConfidentialPayment
