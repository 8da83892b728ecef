import Mathlib.Data.Set.Function
import ConfidentialPayment.Proofs.SerialNumber.Completeness

/-!
# ConfidentialPayment.Proofs.SerialNumber.Hiding

Proofs about hidden coins tell a verifier that chooses the challenge honestly nothing about the
secrets.

1. Every secret is masked by a nonce of its own, so at a fixed challenge every response is given for
   exactly one choice of nonces, whatever the secrets are (`Witness.respondEquiv`).
2. The equations of a verifier determine the commitment from the response, by what is public alone
   (`forall_holds_iff_eq_simulate`).

Together: the conversations that a prover can have are all accepted ones, each of them once.
-/

namespace ConfidentialPayment.SerialNumber.Hidden

/-! ## Responses -/

attribute [ext] Commitment

/-- The nonces with which a witness gives a response to a challenge. -/
def Witness.nonces (w : Witness) (x : Scalar) (r : Response) : Randomness where
  key := r.key - w.key * x
  derivator := r.derivator - w.derivator * x
  keyBlinding := r.keyBlinding - w.keyBlinding * x
  derivatorBlinding := r.derivatorBlinding - w.derivatorBlinding * x

/-- Nonces and responses correspond one to one. -/
def Witness.respondEquiv (w : Witness) (x : Scalar) : Randomness ≃ Response where
  toFun e := w.respond e x
  invFun := w.nonces x
  left_inv e := by simp [respond, nonces]
  right_inv r := by simp [respond, nonces]

/-! ## Conversations -/

variable {P : Type} [Suite P]

/-- What prover and verifier see of each other when the challenge is `x`. -/
def Witness.conversation (gens : Generators P) (s : Statement P) (x : Scalar) (w : Witness)
    (e : Randomness) : Proof P :=
  ⟨commit gens s e, w.respond e x⟩

/-- The only commitment that a response to the challenge `x` is accepted with. -/
def simulate (gens : Generators P) (s : Statement P) (x : Scalar) (r : Response) :
    Commitment P where
  key := gens.commitTo .privateKey r.key r.keyBlinding - x • s.keyCommitment
  derivator := gens.commitTo .derivator r.derivator r.derivatorBlinding - x • s.derivatorCommitment
  serialNumber := (r.key + r.derivator) • s.serialNumber - x • gens.privateKey

variable [LawfulGroup P] {gens : Generators P} {s : Statement P} {x : Scalar}

/-- The responses leave one commitment, which can be computed without a witness. -/
theorem forall_holds_iff_eq_simulate {c : Commitment P} {r : Response} :
    (∀ e ∈ equations gens s x c r, e.Holds) ↔ c = simulate gens s x r := by
  simp only [equations, List.forall_mem_cons, Equation.Holds, Commitment.ext_iff, simulate,
    eq_sub_iff_add_eq']
  refine and_congr_right' (and_congr_right' ?_)
  rw [and_iff_left (List.forall_mem_nil _), eq_comm]

/-- A prover whose witness opens the statement simulates the response that it gives. -/
theorem Witness.conversation_eq {w : Witness} (h : w.Opens gens s) (e : Randomness) :
    w.conversation gens s x e =
      ⟨simulate gens s x (w.respondEquiv x e), w.respondEquiv x e⟩ := by
  have hcommit : commit gens s e = simulate gens s x (w.respond e x) :=
    forall_holds_iff_eq_simulate.mp (equations_hold e x h)
  rw [conversation, hcommit]
  rfl

/-- Perfect zero knowledge against an honest verifier: what a prover sends is its conversation at
the challenge of its own commitment. At any fixed challenge its conversations are all accepted
ones, each for exactly one choice of nonces, so other secrets that open the statement give every
conversation as often. -/
theorem bijOn_conversation {w : Witness} (h : w.Opens gens s) (x : Scalar) :
    (∀ tape : RandomSource, let e := (drawRandomness.run tape).1
      ((prove gens s w).run tape).1 =
        w.conversation gens s (challenge s (commit gens s e)) e) ∧
    Set.BijOn (w.conversation gens s x) Set.univ
      {proof | ∀ e ∈ equations gens s x proof.commitment proof.response, e.Holds} ∧
    ∀ w' : Witness, w'.Opens gens s → ∃ φ : Randomness ≃ Randomness, ∀ e,
      w.conversation gens s x e = w'.conversation gens s x (φ e) := by
  refine ⟨fun _ => rfl, ⟨fun e _ => equations_hold e x h, ?injective, ?surjective⟩, ?witnesses⟩
  case injective =>
    intro e _ e' _ heq
    exact (w.respondEquiv x).injective (congrArg Proof.response heq)
  case surjective =>
    rintro ⟨c, r⟩ haccepted
    have hc : c = simulate gens s x r := forall_holds_iff_eq_simulate.mp haccepted
    refine ⟨(w.respondEquiv x).symm r, Set.mem_univ _, ?_⟩
    rw [w.conversation_eq h, Equiv.apply_symm_apply, hc]
  case witnesses =>
    intro w' h'
    refine ⟨(w.respondEquiv x).trans (w'.respondEquiv x).symm, fun e => ?_⟩
    rw [w.conversation_eq h, w'.conversation_eq h', Equiv.trans_apply, Equiv.apply_symm_apply]

/-- On the line the keys 3 and 4 open one statement, and no conversation tells which one is used. -/
theorem bijOn_conversation_line :
    let gens := Generators.line
    let s : Statement (Coordinates Unit) := ⟨(8 : Scalar)⁻¹ • gens.privateKey,
      (5 : Scalar) • gens.blinding, (9 : Scalar) • gens.blinding⟩
    let w : Witness := ⟨3, 2, 5, 4⟩
    let w' : Witness := ⟨4, 1, 4, 5⟩
    w.Opens gens s ∧ w'.Opens gens s ∧
    Set.BijOn (w.conversation gens s 7) Set.univ
      {proof | ∀ e ∈ equations gens s 7 proof.commitment proof.response, e.Holds} ∧
    ∃ φ : Randomness ≃ Randomness, ∀ e,
      w.conversation gens s 7 e = w'.conversation gens s 7 (φ e) := by
  intro gens s w w'
  have hcommit (kind : Attribute) (v b : Scalar) :
      (v + b) • gens.blinding = gens.commitTo kind v b := by
    rw [Generators.commitTo_eq, add_smul]
    cases kind <;> rfl
  have hserial : (8 : Scalar) • s.serialNumber = gens.privateKey :=
    smul_inv_smul₀ (show (8 : Scalar) ≠ 0 by decide) _
  have hopens : w.Opens gens s := ⟨hcommit .privateKey 3 2, hcommit .derivator 5 4, hserial⟩
  have hopens' : w'.Opens gens s := ⟨hcommit .privateKey 4 1, hcommit .derivator 4 5, hserial⟩
  obtain ⟨-, hbijective, hwitnesses⟩ := bijOn_conversation hopens 7
  exact ⟨hopens, hopens', hbijective, hwitnesses w' hopens'⟩

end ConfidentialPayment.SerialNumber.Hidden
