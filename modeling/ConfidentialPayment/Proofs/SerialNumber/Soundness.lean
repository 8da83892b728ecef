import ConfidentialPayment.Proofs.SerialNumber.Completeness
import ConfidentialPayment.Proofs.Suite.Ideal
import ConfidentialPayment.Proofs.Suite.Interpolation

/-!
# ConfidentialPayment.Proofs.SerialNumber.Soundness

Special soundness of proofs about serial numbers: whoever answers two challenges for one commitment
knows the private key, and with it the whole derivation.

In every equation the answers stand on one side and a line in the challenge on the other, so the
quotients of differences open its slope. One quotient is taken of each answer, and the answers of
key and derivator are shared between the equations: the key and the derivator of the serial number
are those of the commitments, or of the public key.
-/

namespace ConfidentialPayment.SerialNumber

/-! ## The extractor -/

/-- The secret behind two masked values: the slope of the line through them. -/
def extracted (x x' z z' : Scalar) : Scalar := (z - z') / (x - x')

/-- The secrets behind the answers to two challenges. -/
def Hidden.Witness.ofAnswers (x x' : Scalar) (r r' : Response) : Witness where
  key := extracted x x' r.key r'.key
  keyBlinding := extracted x x' r.keyBlinding r'.keyBlinding
  derivator := extracted x x' r.derivator r'.derivator
  derivatorBlinding := extracted x x' r.derivatorBlinding r'.derivatorBlinding

variable {x x' : Scalar}

/-- The extracted secret is the difference of the responses over that of the challenges. -/
theorem extracted_eq (z z' : Scalar) : extracted x x' z z' = (x - x')⁻¹ * (z - z') := by
  rw [extracted, div_eq_mul_inv, mul_comm]

/-- From two points of a line its slope is extracted. -/
theorem extracted_line (hne : x ≠ x') (secret nonce : Scalar) :
    extracted x x' (secret * x + nonce) (secret * x' + nonce) = secret := by
  have hdifference : secret * x + nonce - (secret * x' + nonce) = secret * (x - x') := by ring
  rw [extracted, hdifference, mul_div_assoc, div_self (sub_ne_zero.mpr hne), mul_one]

/-- Honest answers give their own secrets away. -/
theorem Hidden.Witness.ofAnswers_respond (w : Witness) (e : Randomness) (hne : x ≠ x') :
    ofAnswers x x' (w.respond e x) (w.respond e x') = w := by
  simp only [ofAnswers, respond, extracted_line hne]

/-! ## Lines -/

variable {P : Type} [Suite P] [LawfulGroup P] {gens : Generators P}

/-- Two openings of a line of points open its slope. -/
theorem eq_commitTo_extracted (hne : x ≠ x') {kind : Attribute} {slope nonce : P}
    {v v' s s' : Scalar} (h : x • slope + nonce = gens.commitTo kind v s)
    (h' : x' • slope + nonce = gens.commitTo kind v' s') :
    slope = gens.commitTo kind (extracted x x' v v') (extracted x x' s s') := by
  rw [extracted_eq, extracted_eq, Generators.commitTo_mul, Generators.commitTo_sub]
  exact eq_slope_smul hne h h'

/-- Two multiples of one point on a line of points make the slope a multiple of it. -/
theorem eq_extracted_smul (hne : x ≠ x') {slope nonce p : P} {z z' : Scalar}
    (h : x • slope + nonce = z • p) (h' : x' • slope + nonce = z' • p) :
    slope = extracted x x' z z' • p := by
  rw [extracted_eq, mul_smul, sub_smul]
  exact eq_slope_smul hne h h'

/-! ## Hidden coins -/

/-- The equations of a hidden coin hold for both challenges only if the extracted secrets open its
commitments and solve the equation of its serial number. -/
theorem Hidden.opens_ofAnswers (hne : x ≠ x') {s : Statement P} {c : Commitment P}
    {r r' : Response} (h : ∀ e ∈ equations gens s x c r, e.Holds)
    (h' : ∀ e ∈ equations gens s x' c r', e.Holds) :
    (Witness.ofAnswers x x' r r').Opens gens s := by
  simp only [equations, List.forall_mem_cons, Equation.Holds] at h h'
  obtain ⟨hkey, hderivator, hserial, -⟩ := h
  obtain ⟨hkey', hderivator', hserial', -⟩ := h'
  refine ⟨eq_commitTo_extracted hne hkey hkey',
    eq_commitTo_extracted hne hderivator hderivator', ?_⟩
  have hsum : extracted x x' (r.key + r.derivator) (r'.key + r'.derivator) =
      extracted x x' r.key r'.key + extracted x x' r.derivator r'.derivator := by
    rw [extracted, extracted, extracted]
    ring
  exact hsum ▸ (eq_extracted_smul hne hserial.symm hserial'.symm).symm

/-! ## Revealed coins -/

/-- The equations of a revealed coin hold for both challenges only if the extracted key is that of
the public key and solves the equation of the serial number. -/
theorem Revealed.solves_extracted (hne : x ≠ x') {s : Statement P} {c : Commitment P}
    {z z' : Scalar} (h : ∀ e ∈ equations gens s x c z, e.Holds)
    (h' : ∀ e ∈ equations gens s x' c z', e.Holds) :
    s.publicKey = extracted x x' z z' • gens.privateKey ∧
      (extracted x x' z z' + s.derivator) • s.serialNumber = gens.privateKey := by
  simp only [equations, List.forall_mem_cons, Equation.Holds] at h h'
  obtain ⟨hkey, hserial, -⟩ := h
  obtain ⟨hkey', hserial', -⟩ := h'
  refine ⟨eq_extracted_smul hne hkey.symm hkey'.symm, ?_⟩
  -- the published derivator adds the same to the slope of every line
  have hsum : extracted x x' (z + s.derivator * x) (z' + s.derivator * x') =
      extracted x x' z z' + s.derivator := by
    have hdifference : z + s.derivator * x - (z' + s.derivator * x') =
        z - z' + s.derivator * (x - x') := by ring
    rw [extracted, extracted, hdifference, add_div, mul_div_assoc,
      div_self (sub_ne_zero.mpr hne), mul_one]
  exact hsum ▸ (eq_extracted_smul hne hserial.symm hserial'.symm).symm

/-! ## Serial numbers -/

/-- Special soundness: from two answers for one commitment the quotients of differences are a key
and a derivator that the serial number is derived from. For a hidden coin they are what its
commitments open to, and for a revealed coin the key is that of its public key. -/
theorem deriveSerial_of_answers (hbase : gens.privateKey ≠ 0) :
    (∀ (s : Hidden.Statement P) (c : Hidden.Commitment P) (x x' : Scalar) (r r' : Hidden.Response),
      x ≠ x' → (∀ e ∈ Hidden.equations gens s x c r, e.Holds) →
      (∀ e ∈ Hidden.equations gens s x' c r', e.Holds) →
      let w := Hidden.Witness.ofAnswers x x' r r'
      s.keyCommitment = w.key • gens.privateKey + w.keyBlinding • gens.blinding ∧
      s.derivatorCommitment = w.derivator • gens.derivator + w.derivatorBlinding • gens.blinding ∧
      (w.key + w.derivator) • s.serialNumber = gens.privateKey ∧
      deriveSerial gens.privateKey w.key w.derivator = .ok s.serialNumber) ∧
    (∀ (s : Revealed.Statement P) (c : Revealed.Commitment P) (x x' z z' : Scalar),
      x ≠ x' → (∀ e ∈ Revealed.equations gens s x c z, e.Holds) →
      (∀ e ∈ Revealed.equations gens s x' c z', e.Holds) →
      s.publicKey = extracted x x' z z' • gens.privateKey ∧
      deriveSerial gens.privateKey (extracted x x' z z') s.derivator = .ok s.serialNumber) := by
  constructor
  · intro s c x x' r r' hne h h' w
    have hopens : w.Opens gens s := Hidden.opens_ofAnswers hne h h'
    exact ⟨hopens.key.trans (Generators.commitTo_eq ..),
      hopens.derivator.trans (Generators.commitTo_eq ..), hopens.serial,
      deriveSerial_of_smul hbase hopens.serial⟩
  · intro s c x x' z z' hne h h'
    obtain ⟨hkey, hserial⟩ := Revealed.solves_extracted hne h h'
    exact ⟨hkey, deriveSerial_of_smul hbase hserial⟩

/-- The honest answers to the challenges 1 and 2, for a hidden and a revealed coin with the key 3
and the derivator 5. -/
theorem deriveSerial_of_answers_ideal :
    let gens := Generators.ideal
    let serial := (3 + 5 : Scalar)⁻¹ • gens.privateKey
    let hidden : Hidden.Statement Opening :=
      ⟨serial, gens.commitTo .privateKey 3 2, gens.commitTo .derivator 5 4⟩
    let revealed : Revealed.Statement Opening := ⟨serial, (3 : Scalar) • gens.privateKey, 5⟩
    ∃ (c : Hidden.Commitment Opening) (r r' : Hidden.Response)
      (c₀ : Revealed.Commitment Opening) (z z' : Scalar),
      (∀ e ∈ Hidden.equations gens hidden 1 c r, e.Holds) ∧
      (∀ e ∈ Hidden.equations gens hidden 2 c r', e.Holds) ∧
      Hidden.Witness.ofAnswers 1 2 r r' = ⟨3, 2, 5, 4⟩ ∧
      (∀ e ∈ Revealed.equations gens revealed 1 c₀ z, e.Holds) ∧
      (∀ e ∈ Revealed.equations gens revealed 2 c₀ z', e.Holds) ∧
      revealed.publicKey = extracted 1 2 z z' • gens.privateKey ∧
      deriveSerial gens.privateKey 3 5 = .ok serial := by
  intro gens serial hidden revealed
  have hne : (1 : Scalar) ≠ 2 := by decide
  have hserial : (3 + 5 : Scalar) • serial = gens.privateKey := smul_inv_smul₀ (by decide) _
  have hpublic : revealed.publicKey = (3 : Scalar) • gens.privateKey := rfl
  let w : Hidden.Witness := ⟨3, 2, 5, 4⟩
  let e : Hidden.Randomness := ⟨7, 11, 13, 17⟩
  have hopens : w.Opens gens hidden := ⟨rfl, rfl, hserial⟩
  have hhidden (x : Scalar) := Hidden.equations_hold e x hopens
  have hrevealed (x : Scalar) := Revealed.equations_hold 19 x hpublic hserial
  have hw := w.ofAnswers_respond e hne
  obtain ⟨hsound, hsound'⟩ :=
    deriveSerial_of_answers (show Generators.ideal.privateKey ≠ 0 by decide)
  obtain ⟨-, -, -, hderive⟩ := hsound hidden _ 1 2 _ _ hne (hhidden 1) (hhidden 2)
  obtain ⟨hkey, -⟩ := hsound' revealed _ 1 2 _ _ hne (hrevealed 1) (hrevealed 2)
  rw [hw] at hderive
  exact ⟨_, _, _, _, _, _, hhidden 1, hhidden 2, hw, hrevealed 1, hrevealed 2, hkey, hderive⟩

end ConfidentialPayment.SerialNumber
