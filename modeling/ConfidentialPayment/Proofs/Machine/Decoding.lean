import ConfidentialPayment.Machine.Decoding
import ConfidentialPayment.Proofs.Machine.Reader
import ConfidentialPayment.Proofs.Payment.Encoding
import ConfidentialPayment.Proofs.RangeProof.Completeness

/-!
# ConfidentialPayment.Proofs.Machine.Decoding

No decoder faults.

Each decoder of the machine ends as its counterpart does on every string in memory. For readers that
is a matter of their parts. Three things need an argument of their own: the check of a range proof,
whose shift comes behind the bound on the rounds and whose padding behind the bound on the values;
the products that count ring indices, whose factors were read from two bytes; and the cuts of
decoders that do without a cursor.
-/

namespace ConfidentialPayment.Machine

open SliceReader

variable {P : Type} [Suite P] {bs : Bytes}

/-! ## Proofs of fixed length -/

/-- On the machine membership proofs are decoded without a fault, and with the same outcome. -/
theorem decodeMembership_eq (h : bs.length < UInt64.size) :
    (decodeMembership bs : Machine (Membership.Proof P)) = ofExcept (Membership.Proof.ofBytes bs) :=
  Follows.decodeFixed_eq
    ((follows_points _ _).andThen fun _ => (follows_points _ _).andThen fun _ =>
      (follows_points _ _).andThen fun _ => (follows_points _ _).andThen fun _ =>
      (follows_scalars _ _).andThen fun _ => (follows_scalars _ _).andThen fun _ =>
      (follows_scalars _ _).andThen fun _ => (follows_scalar _).andThen fun _ => follows_pure _) _ h

/-- On the machine proofs of hidden serial numbers are decoded without a fault, and with the same
outcome. -/
theorem decodeHiddenSerial_eq (h : bs.length < UInt64.size) :
    (decodeHiddenSerial bs : Machine (SerialNumber.Hidden.Proof P)) =
      ofExcept (SerialNumber.Hidden.Proof.ofBytes bs) :=
  Follows.decodeFixed_eq
    ((follows_point _).andThen fun _ => (follows_point _).andThen fun _ =>
      (follows_point _).andThen fun _ => (follows_scalar _).andThen fun _ =>
      (follows_scalar _).andThen fun _ => (follows_scalar _).andThen fun _ =>
      (follows_scalar _).andThen fun _ => follows_pure _) _ h

/-- On the machine proofs of revealed serial numbers are decoded without a fault, and with the same
outcome. -/
theorem decodeRevealedSerial_eq (h : bs.length < UInt64.size) :
    (decodeRevealedSerial bs : Machine (SerialNumber.Revealed.Proof P)) =
      ofExcept (SerialNumber.Revealed.Proof.ofBytes bs) :=
  Follows.decodeFixed_eq
    ((follows_point _).andThen fun _ => (follows_point _).andThen fun _ =>
      (follows_scalar _).andThen fun _ => follows_pure _) _ h

/-! ## Arguments and range proofs -/

/-- Arguments are read on the machine as they are on lists: the count is a byte, so no length
overflows. -/
theorem follows_readArgument :
    Follows (readArgument : SliceReader (InnerProduct.Proof P)) InnerProduct.Proof.reader :=
  ((follows_nat8 _).andThen fun _ => (follows_pure _).ite (follows_fail _)).andThen fun _ =>
    (follows_points _ _).andThen fun _ => (follows_points _ _).andThen fun _ =>
    (follows_scalar _).andThen fun _ => (follows_scalar _).andThen fun _ =>
    (follows_point _).andThen fun _ => follows_pure _

/-- On the machine arguments are decoded without a fault, and with the same outcome. -/
theorem decodeArgument_eq (h : bs.length < UInt64.size) :
    (decodeArgument bs : Machine (InnerProduct.Proof P)) =
      ofExcept (InnerProduct.Proof.ofBytes bs) :=
  follows_readArgument.decode_eq h

/-- Range proofs are read on the machine as they are on lists. -/
theorem follows_readRange :
    Follows (readRange : SliceReader (RangeProof.Proof P)) RangeProof.Proof.reader :=
  ((follows_nat8 _).andThen fun _ => (follows_fail _).ite
    ((follows_fail _).ite (follows_pure _))).andThen fun _ =>
    (follows_points _ _).andThen fun _ => (follows_point _).andThen fun _ =>
    (follows_point _).andThen fun _ => (follows_point _).andThen fun _ =>
    (follows_point _).andThen fun _ => (follows_scalar _).andThen fun _ =>
    (follows_scalar _).andThen fun _ => (follows_scalar _).andThen fun _ =>
    follows_readArgument.andThen fun _ => follows_pure _

/-- The number of values was checked before the values were read. -/
theorem length_commitments_le : ∀ proof : RangeProof.Proof P,
    Reads RangeProof.Proof.reader proof → proof.commitments.length ≤ RangeProof.maxValues := by
  refine forall_reads_bind fun count hcount => forall_reads_bind fun commitments hcommitments =>
    forall_reads_bind fun _ _ => forall_reads_bind fun _ _ => forall_reads_bind fun _ _ =>
    forall_reads_bind fun _ _ => forall_reads_bind fun _ _ => forall_reads_bind fun _ _ =>
    forall_reads_bind fun _ _ => forall_reads_bind fun _ _ proof hproof => ?_
  obtain ⟨_, ⟨-, hle⟩, -⟩ := hcount.exists_of_recognizes RangeProof.recognizes_readCount
  rw [reads_pure_iff.mp hproof, length_of_reads_repeated commitments hcommitments]
  exact hle

/-- The length of the vectors for up to `2 ^ 57` values is a word. -/
theorem mul_pad {count : ℕ} (h : count ≤ 2 ^ 57) :
    (pad count >>= fun padded => mul RangeProof.bitCount padded) =
      .ok (2 ^ RangeProof.roundCount count) := by
  have hpad : ConfidentialPayment.pad count ≤ 2 ^ 57 := pad_le_of_le h
  have hbits : RangeProof.bitCount = 64 := rfl
  have hsize : UInt64.size = 18446744073709551616 := rfl
  have hlt : RangeProof.bitCount * ConfidentialPayment.pad count < UInt64.size := by
    rw [hbits]
    omega
  rw [pad_eq (by omega), ok_bind, mul_eq hlt, ← RangeProof.vectorLength_eq]
  rfl

omit [Suite P] in
/-- The shape of a range proof is checked on the machine without a fault, and with the same
answer. -/
theorem isWellFormed_eq (proof : RangeProof.Proof P) :
    isWellFormed proof = .ok proof.isWellFormed := by
  unfold isWellFormed RangeProof.Proof.isWellFormed
  dsimp only
  by_cases hpos : 0 < proof.commitments.length
  · by_cases hle : proof.commitments.length ≤ RangeProof.maxValues
    · by_cases hrounds : proof.argument.isWellFormed = true
      · have hlt : proof.argument.rounds.length < wordBits :=
          Nat.lt_trans (of_decide_eq_true hrounds) (by decide)
        have hiff : 2 ^ proof.argument.rounds.length =
            2 ^ RangeProof.roundCount proof.commitments.length ↔
            proof.argument.rounds.length = RangeProof.roundCount proof.commitments.length :=
          Nat.pow_right_inj (by decide)
        rw [if_neg (not_not.mpr hpos), if_neg (not_not.mpr hle), if_neg (not_not.mpr hrounds),
          shiftLeft_one hlt, ok_bind, ← bind_assoc, mul_pad (hle.trans (by decide)), ok_bind,
          decide_eq_true hpos, decide_eq_true hle, hrounds, decide_eq_decide.mpr hiff]
        rfl
      · rw [if_neg (not_not.mpr hpos), if_neg (not_not.mpr hle), if_pos hrounds]
        simp [hrounds, pure, Except.pure]
    · rw [if_neg (not_not.mpr hpos), if_pos hle]
      simp [hle, pure, Except.pure]
  · rw [if_pos hpos]
    simp [hpos, pure, Except.pure]

/-- On the machine range proofs are decoded without a fault, and with the same outcome. -/
theorem decodeRange_eq (h : bs.length < UInt64.size) :
    (decodeRange bs : Machine (RangeProof.Proof P)) = ofExcept (RangeProof.Proof.ofBytes bs) := by
  unfold decodeRange RangeProof.Proof.ofBytes
  rw [follows_readRange.decode_eq h, ofExcept_bind]
  cases hread : Reader.decode (RangeProof.Proof.reader : Reader (RangeProof.Proof P)) bs with
  | error cause => rfl
  | ok proof =>
    have hle : proof.commitments.length ≤ RangeProof.maxValues := by
      unfold Reader.decode at hread
      obtain ⟨⟨_, cursor⟩, hrun, hrest⟩ := bind_eq_ok.mp hread
      obtain ⟨_, -, hresult⟩ := bind_eq_ok.mp hrest
      exact length_commitments_le proof ⟨_, _, Except.ok.inj hresult ▸ hrun⟩
    have hlt : RangeProof.roundCount proof.commitments.length < wordBits :=
      Nat.lt_trans (RangeProof.roundCount_lt hle) (by decide)
    rw [ofExcept_ok, ok_bind, ok_bind, isWellFormed_eq, ok_bind]
    by_cases hformed : proof.isWellFormed = true
    · rw [if_pos hformed, if_pos hformed]
      rfl
    · rw [if_neg hformed, if_neg hformed, ← bind_assoc, mul_pad (hle.trans (by decide)),
        ok_bind, trailingZeros_two_pow hlt]
      rfl

/-! ## Signatures and ciphertexts -/

/-- The machine takes a component out of a signature as lists do. -/
theorem component_eq (field : String) (bs : Bytes) :
    component field bs = ofExcept (Signature.component field bs) := within_ofExcept ..

/-- On the machine signatures of any length are decoded without a fault, and with the same
outcome. -/
theorem decodeSignature_eq (bs : Bytes) : decodeSignature bs = ofExcept (Signature.ofBytes bs) := by
  have hrest (h : 2 * Scalar.byteLength ≤ bs.length) (z : Option Scalar) :
      (slice bs 0 Scalar.byteLength >>= component "e" >>= fun challenge =>
        slice bs Scalar.byteLength (2 * Scalar.byteLength) >>= component "z1" >>= fun response =>
          pure (⟨challenge, response, z⟩ : Signature)) =
      ofExcept (Signature.component "e" (bs.take Scalar.byteLength) >>= fun challenge =>
        Signature.component "z1" ((bs.drop Scalar.byteLength).take Scalar.byteLength) >>=
          fun response => pure ⟨challenge, response, z⟩) := by
    have hn : 2 * Scalar.byteLength - Scalar.byteLength = Scalar.byteLength := rfl
    rw [slice_zero_eq (by omega), slice_eq (by omega) h, List.drop_take, hn, ok_bind, ok_bind,
      component_eq, component_eq, ofExcept_bind]
    simp only [ofExcept_bind]
    rfl
  unfold decodeSignature Signature.ofBytes
  dsimp only
  by_cases hshort : bs.length = 2 * Scalar.byteLength
  · rw [if_pos hshort, if_pos hshort]
    exact hrest hshort.ge none
  · rw [if_neg hshort, if_neg hshort]
    by_cases hlong : bs.length = 3 * Scalar.byteLength
    · have hle : 2 * Scalar.byteLength ≤ bs.length := by omega
      rw [if_pos hlong, if_pos hlong, slice_length_eq hle, ok_bind, component_eq]
      cases Signature.component "z2" (bs.drop (2 * Scalar.byteLength)) with
      | error cause => rfl
      | ok z => exact hrest hle (some z)
    · rw [if_neg hlong, if_neg hlong]
      rfl

/-- On the machine encrypted points are decoded without a fault, and with the same outcome. -/
theorem decodeElgamal_eq (bs : Bytes) :
    (decodeElgamal bs : Machine (Elgamal.Ciphertext P)) =
      ofExcept (Elgamal.Ciphertext.ofBytes bs) := by
  unfold decodeElgamal Elgamal.Ciphertext.ofBytes
  by_cases hlength : bs.length = Elgamal.Ciphertext.byteLength
  · have hle : pointLength ≤ bs.length := hlength ▸ (by decide)
    rw [if_pos hlength, if_pos hlength, slice_zero_eq hle, ok_bind, slice_length_eq hle]
    simp only [ok_bind, within_ofExcept, ofExcept_bind]
    rfl
  · rw [if_neg hlength, if_neg hlength]
    rfl

/-- On the machine ciphertexts are decoded without a fault, and with the same outcome. -/
theorem decodeHybrid_eq (bs : Bytes) :
    (decodeHybrid bs : Machine (Hybrid.Ciphertext P)) =
      ofExcept (Hybrid.Ciphertext.ofBytes bs) := by
  unfold decodeHybrid Hybrid.Ciphertext.ofBytes
  dsimp only
  by_cases hempty : bs.isEmpty = true
  · rw [if_pos hempty, if_pos hempty]
    rfl
  · rw [if_neg hempty, if_neg hempty]
    by_cases hshort : bs.length < Elgamal.Ciphertext.byteLength
    · rw [if_pos hshort, if_pos hshort]
      rfl
    · have hle : Elgamal.Ciphertext.byteLength ≤ bs.length := Nat.le_of_not_lt hshort
      rw [if_neg hshort, if_neg hshort, slice_zero_eq hle, ok_bind, slice_length_eq hle,
        decodeElgamal_eq, within_ofExcept, ofExcept_bind]
      rfl

/-! ## Coins -/

/-- A field that may be blank is read on the machine as it is on lists if its content is. -/
theorem follows_readField {α : Type} (field : String) (length : ℕ) {read : SliceReader α}
    {spec : Reader α} (h : Follows read spec) (blank : α) :
    Follows (readField field length read blank)
      (do if ← Coin.readLength field length then spec else return blank) :=
  ((follows_nat8 _).andThen fun _ => (follows_pure _).ite
    ((follows_pure _).ite (follows_fail _))).andThen fun _ => h.ite (follows_pure _)

/-- Coins are read on the machine as they are on lists. -/
theorem follows_readCoin : Follows (readCoin : SliceReader (Coin P)) Coin.reader :=
  (follows_readField _ _ (follows_point _) _).andThen fun _ =>
    (follows_readField _ _ (follows_point _) _).andThen fun _ =>
    (follows_readField _ _ (follows_scalar _) _).andThen fun _ =>
    (follows_readField _ _ (follows_point _) _).andThen fun _ =>
    (follows_readField _ _ (follows_scalar _) _).andThen fun _ =>
    (follows_readField _ _ (follows_uint64 _) _).andThen fun _ =>
    (follows_nat8 _).andThen fun _ => (follows_bytes _ _).andThen fun _ => follows_pure _

theorem decodeCoin_eq (h : bs.length < UInt64.size) :
    (decodeCoin bs : Machine (Coin P)) = ofExcept (Coin.ofBytes bs) := follows_readCoin.decode_eq h

/-- Outputs are read on the machine as they are on lists. -/
theorem follows_readOutput : Follows (readOutput : SliceReader (OutputCoin P)) OutputCoin.reader :=
  (follows_nat16 _).andThen fun _ => (follows_bytes _ _).andThen fun bs =>
    (decodeHybrid_eq (P := P) bs ▸ follows_within _ _).andThen fun _ =>
    follows_readCoin.andThen fun _ => follows_pure _

theorem decodeOutput_eq (h : bs.length < UInt64.size) :
    (decodeOutput bs : Machine (OutputCoin P)) = ofExcept (OutputCoin.ofBytes bs) :=
  follows_readOutput.decode_eq h

/-! ## Payments -/

section Items

variable {α : Type} {decode : Bytes → Machine α} {decode' : Bytes → Except Error α}

/-- An item behind its length is read on the machine as it is on lists. -/
theorem follows_readItem (field : String) : Follows (readItem field) (Payment.readItem field) :=
  (follows_nat16 _).andThen fun _ => follows_bytes _ _

/-- Items are short, so they are in memory. -/
theorem follows_readItems (field : String)
    (h : ∀ bs : Bytes, bs.length < UInt64.size → decode bs = ofExcept (decode' bs)) :
    Follows (readItems field decode) (Payment.readItems field decode') := by
  refine (follows_nat16 _).andThen fun count => follows_repeated ?_ count
  refine (follows_readItem field).bind fun item hitem => ?_
  obtain ⟨_, hlength, -⟩ := hitem.exists_of_recognizes (Payment.recognizes_readItem field)
  rw [h item (Nat.lt_trans hlength (by decide))]
  exact follows_within _ _

/-- A string is empty if its length is zero. -/
theorem follows_readOptionalItem (field : String)
    (h : ∀ bs : Bytes, bs.length < UInt64.size → decode bs = ofExcept (decode' bs)) :
    Follows (readOptionalItem field decode) (Payment.readOptionalItem field decode') := by
  unfold readOptionalItem Payment.readOptionalItem Payment.readItem
  rw [bind_assoc]
  refine (follows_nat16 _).bind fun length hlength => ?_
  obtain ⟨_, hlt, -⟩ := hlength.exists_of_recognizes (Reader.recognizes_nat16 field)
  by_cases hzero : length = 0
  · have hnone : Reader.bytes field 0 = pure [] := rfl
    rw [if_pos hzero, hzero, hnone]
    exact follows_pure none
  · rw [if_neg hzero, map_eq_pure_bind, bind_assoc]
    refine (follows_bytes field length).bind fun item hitem => ?_
    obtain ⟨_, hitem, -⟩ := hitem.exists_of_recognizes (Reader.recognizes_bytes field length)
    have hne : ¬ item.isEmpty = true := by
      rintro hempty
      rw [List.isEmpty_iff.mp hempty] at hitem
      exact hzero hitem.symm
    rw [if_neg hne, h item (hitem ▸ Nat.lt_trans hlt (by decide)), ← map_eq_pure_bind]
    exact (follows_within _ _).map some

end Items

theorem follows_readPoints (field : String) :
    Follows (readPoints field : SliceReader (List P)) (Payment.readPoints field) :=
  (follows_nat16 _).andThen fun _ => follows_points _ _

theorem follows_readOptionalPoint (field : String) :
    Follows (readOptionalPoint field : SliceReader (Option P)) (Payment.readOptionalPoint field) :=
  (follows_nat16 _).andThen fun _ => (follows_pure _).ite
    (((follows_point _).map some).ite (follows_fail _))

/-- The indices of rings are read without a fault if the length of all of them is a word. -/
theorem follows_readIndices {count : ℕ} (h : count * Payment.indexLength < UInt64.size) :
    Follows (readIndices count) (Payment.readIndices count) :=
  follows_remaining.andThen fun _ => .lift_bind (mul_eq h)
    ((follows_repeated (follows_uint64 _) _).ite (follows_fail _))

/-- The number of membership proofs was read from two bytes, so the bytes of all ring indices are
still counted by a word. -/
theorem follows_readPayment :
    Follows (readPayment : SliceReader (Payment.Proof P)) Payment.Proof.reader := by
  refine (follows_readItems _ fun _ => decodeMembership_eq).bind fun memberships hmemberships => ?_
  obtain ⟨_, ⟨hcount, -⟩⟩ :=
    hmemberships.exists_of_recognizes (Payment.recognizes_readItems _ _)
  have hfits : memberships.length * Membership.ringSize * Payment.indexLength < UInt64.size :=
    Nat.lt_of_lt_of_le (Nat.mul_lt_mul_of_pos_right
      (Nat.mul_lt_mul_of_pos_right hcount (by decide)) (by decide)) (by decide)
  refine (follows_readItems _ fun _ => decodeHiddenSerial_eq).andThen fun _ =>
    (follows_readItems _ fun _ => decodeRevealedSerial_eq).andThen fun _ =>
    (follows_readOptionalItem _ fun _ => decodeRange_eq).andThen fun _ =>
    (follows_readItems _ fun _ => decodeCoin_eq).andThen fun _ =>
    (follows_readItems _ fun _ => decodeOutput_eq).andThen fun _ =>
    (follows_readPoints _).andThen fun _ => (follows_readPoints _).andThen fun _ =>
    (follows_readPoints _).andThen fun _ => (follows_readOptionalPoint _).andThen fun _ =>
    (follows_readPoints _).andThen fun _ => (follows_readPoints _).andThen fun _ =>
    (follows_readOptionalPoint _).andThen fun _ => .lift_bind
      (mul_eq (Nat.lt_of_le_of_lt (Nat.le_mul_of_pos_right _ (by decide)) hfits)) ?_
  exact (follows_readIndices hfits).andThen fun _ => follows_pure _

/-- On the machine payments are decoded without a fault, and with the same outcome. -/
theorem decodePayment_eq (h : bs.length < UInt64.size) :
    (decodePayment bs : Machine (Payment.Proof P)) = ofExcept (Payment.Proof.ofBytes bs) :=
  follows_readPayment.decode_eq h

end ConfidentialPayment.Machine
