import ConfidentialPayment.Envelope
import ConfidentialPayment.Proofs.Lists
import ConfidentialPayment.Proofs.Wire.Exactness

/-!
# ConfidentialPayment.Proofs.Envelope

What comes out of an envelope.

1. `Carries` says which string an envelope carries, from the string alone: the string as it is, its
   bytes as numbers, or its frame with anything behind. Opening an envelope gives this string
   (`contentOf_eq_ok_iff`).
2. An envelope opens exactly if it carries the encoding of a proof (`decode_eq_ok_iff`), and fails
   either for its own sake or for that of the string inside (`decode_eq_error_iff`).
3. So the proofs that provers publish come out of every envelope that their encoding is put into
   (`decode_of_isPublished`).
-/

namespace ConfidentialPayment

namespace Envelope

/-! ## Numbers -/

/-- The numbers that are bytes are those of bytes. -/
theorem byteOf_eq_ok_iff {number : ℤ} {byte : UInt8} :
    byteOf number = .ok byte ↔ number = byte.toNat := by
  unfold byteOf
  have hbyte := byte.toNat_lt
  split_ifs with hrange
  · have hnat : number.toNat < 256 := by omega
    rw [Except.ok.injEq, ← UInt8.toNat_inj, UInt8.toNat_ofNat_of_lt' hnat]
    omega
  · refine iff_of_false nofun fun hnumber => hrange ?_
    omega

/-- The numbers of the bytes of a string. -/
def numbersOf (bs : Bytes) : List ℤ := bs.map fun byte => byte.toNat

/-- A list of numbers is read exactly if it is that of a string. -/
theorem mapM_byteOf_eq_ok_iff {content : List ℤ} {bs : Bytes} :
    content.mapM byteOf = .ok bs ↔ content = numbersOf bs := by
  rw [mapM_eq_ok, numbersOf, ← forall₂_eq_map_iff]
  simp only [byteOf_eq_ok_iff]
  exact ⟨List.Forall₂.flip, List.Forall₂.flip⟩

/-! ## Frames -/

/-- A framed string is found again, whatever comes after the frame. -/
theorem unframe_frame_append {bs : Bytes} (h : bs.length < 256 ^ lengthWidth) (rest : Bytes) :
    unframe (frame bs ++ rest) = .ok bs := by
  have hencoded : (frame bs ++ rest).take lengthWidth = Bytes.ofNatLE lengthWidth bs.length := by
    rw [frame, List.append_assoc]
    exact Bytes.take_append_of_length (Bytes.length_ofNatLE ..)
  have hbehind : (frame bs ++ rest).drop lengthWidth = bs ++ rest := by
    rw [frame, List.append_assoc]
    exact Bytes.drop_append_of_length (Bytes.length_ofNatLE ..)
  simp only [unframe, hencoded, hbehind, Bytes.toNatLE_ofNatLE_of_lt h, Bytes.length_ofNatLE,
    Bytes.take_append_of_length, lt_irrefl, if_false]

/-- A string opens as a frame exactly if it begins with one whose length fits its eight bytes. -/
theorem unframe_eq_ok_iff {given bs : Bytes} :
    unframe given = .ok bs ↔
      bs.length < 256 ^ lengthWidth ∧ ∃ rest, given = frame bs ++ rest := by
  constructor
  · intro h
    simp only [unframe] at h
    split_ifs at h with hlength hcontent
    obtain rfl := Except.ok.inj h
    set encoded := given.take lengthWidth with hencoded
    have hwidth : encoded.length = lengthWidth :=
      Nat.le_antisymm (List.length_take_le ..) (Nat.not_lt.mp hlength)
    have hcount : ((given.drop lengthWidth).take (Bytes.toNatLE encoded)).length =
        Bytes.toNatLE encoded :=
      Nat.le_antisymm (List.length_take_le ..) (Nat.not_lt.mp hcontent)
    refine ⟨?_, (given.drop lengthWidth).drop (Bytes.toNatLE encoded), ?_⟩
    · rw [hcount, ← hwidth]
      exact Bytes.toNatLE_lt encoded
    · rw [frame, hcount, ← hwidth, Bytes.ofNatLE_toNatLE, hwidth, List.append_assoc,
        List.take_append_drop, hencoded, List.take_append_drop]
  · rintro ⟨hfits, rest, rfl⟩
    exact unframe_frame_append hfits rest

/-! ## Envelopes -/

/-- An envelope carries a string: as it is, as the list of its numbers, or in a frame with anything
behind. No text carries one. -/
def Carries (bs : Bytes) : Envelope → Prop
  | bytes content => content = bs
  | numbers content => content = numbersOf bs
  | framed content => bs.length < 256 ^ lengthWidth ∧ ∃ rest, content = frame bs ++ rest
  | text _ => False

variable {α : Type} {kind : ProofKind} {ofBytes : Bytes → Except Error α} {e : Envelope}
  {bs : Bytes} {a : α} {failure : Failure}

/-- What is taken out of an envelope is what it carries. -/
theorem contentOf_eq_ok_iff : e.contentOf kind = .ok bs ↔ e.Carries bs := by
  cases e with
  | bytes content => exact Except.ok.injEq content bs ▸ Iff.rfl
  | numbers content => exact mapM_byteOf_eq_ok_iff
  | framed content => exact unframe_eq_ok_iff
  | text content => exact iff_of_false nofun id

/-- No envelope carries two strings. -/
theorem Carries.unique {bs' : Bytes} (h : e.Carries bs) (h' : e.Carries bs') : bs = bs' := by
  have hopens : e.contentOf .payment = .ok bs := contentOf_eq_ok_iff.mpr h
  exact Except.ok.inj (hopens.symm.trans (contentOf_eq_ok_iff.mpr h'))

/-- A proof comes out of an envelope exactly if it is that of the string that the envelope
carries. -/
theorem decode_eq_ok_iff :
    e.decode kind ofBytes = .ok a ↔ ∃ bs, e.Carries bs ∧ ofBytes bs = .ok a := by
  simp only [decode, bind_eq_ok, contentOf_eq_ok_iff, mapError_eq_ok]

/-- Nothing is wrong with the string inside an envelope that does not open. -/
theorem contentOf_ne_content {cause : Error} : e.contentOf kind ≠ .error (.content cause) := by
  intro h
  cases e with
  | bytes content => cases h
  | numbers content =>
    obtain ⟨number, -, hnumber⟩ := exists_of_mapM_eq_error h
    unfold byteOf at hnumber
    split_ifs at hnumber
    cases hnumber
  | framed content =>
    simp only [contentOf, unframe] at h
    split_ifs at h <;> cases h
  | text content => cases h

/-- No proof comes out of an envelope either because it does not open or because the string that it
carries is refused. -/
theorem decode_eq_error_iff :
    e.decode kind ofBytes = .error failure ↔ e.contentOf kind = .error failure ∨
      ∃ bs cause, e.Carries bs ∧ ofBytes bs = .error cause ∧ failure = .content cause := by
  have hinside (bs : Bytes) : (ofBytes bs).mapError Failure.content = .error failure ↔
      ∃ cause, ofBytes bs = .error cause ∧ failure = .content cause := by
    cases ofBytes bs <;> simp [Except.mapError, eq_comm]
  simp only [decode, bind_eq_error, contentOf_eq_ok_iff, hinside, exists_and_left]

end Envelope

/-! ## Proofs in envelopes -/

namespace ProofKind

variable {P : Type} [Suite P]

/-- The format of the proofs of a kind. -/
def form : ProofKind → WireForm
  | signature => .signature
  | membership => .membership
  | hiddenSerial => .hiddenSerial
  | revealedSerial => .revealedSerial
  | innerProduct => .argument
  | range => .range
  | payment => .payment

/-- What the provers of a kind return and its decoder accepts. -/
def IsPublished : (kind : ProofKind) → kind.form.Content P → Prop
  | payment => fun proof => ∃ gens table, Payment.Proof.Arises gens table proof
  | kind => kind.form.Arises

variable [LawfulEncoding P]

/-- Proofs that have one spelling are short. -/
theorem length_encode_lt {kind : ProofKind} (hkind : kind.form.hasOneSpelling = true)
    {a : kind.form.Content P} (hfits : kind.form.Fits a) : (kind.form.encode a).length < 65536 := by
  cases kind with
  | signature =>
    refine (Signature.length_toBytes a).trans_lt ?_
    split_ifs <;> decide
  | membership => exact Membership.length_toBytes_lt hfits
  | hiddenSerial => exact SerialNumber.Hidden.length_toBytes_lt a
  | revealedSerial => exact SerialNumber.Revealed.length_toBytes_lt a
  | innerProduct =>
    have hrounds := of_decide_eq_true hfits
    refine (InnerProduct.length_toBytes a).trans_lt ?_
    unfold InnerProduct.Proof.byteLength pointLength Scalar.byteLength
    unfold InnerProduct.maxRounds at hrounds
    omega
  | range => exact RangeProof.length_toBytes_lt hfits
  | payment => cases hkind

/-- What is published is read back from its encoding, and a frame has room for its length. -/
theorem decode_encode_of_isPublished {kind : ProofKind} {a : kind.form.Content P}
    (h : kind.IsPublished a) :
    kind.form.decode (kind.form.encode a) = .ok a ∧
      (kind.form.encode a).length < 256 ^ Envelope.lengthWidth := by
  have hshort (hkind : kind.form.hasOneSpelling = true) (harises : kind.form.Arises a) :
      kind.form.decode (kind.form.encode a) = .ok a ∧
        (kind.form.encode a).length < 256 ^ Envelope.lengthWidth :=
    ⟨kind.form.decode_encode_of_arises hkind harises,
      (length_encode_lt hkind (kind.form.fits_of_arises hkind harises)).trans (by decide)⟩
  cases kind with
  | payment =>
    obtain ⟨gens, table, harises⟩ := h
    exact ⟨Payment.Proof.ofBytes_toBytes harises.isWritable, harises.isWritable.length_toBytes_lt⟩
  | signature | membership | hiddenSerial | revealedSerial | innerProduct | range =>
    exact hshort rfl h

end ProofKind

namespace Envelope

variable {P : Type} [Suite P] [LawfulEncoding P] {kind : ProofKind} {a : kind.form.Content P}

/-- What is published comes out of every envelope that carries its encoding, and there are three
such envelopes: the encoding as it is, as the list of its numbers, and in its frame with anything
behind. -/
theorem decode_of_isPublished (h : kind.IsPublished a) :
    (∀ e : Envelope, e.Carries (kind.form.encode a) → e.decode kind kind.form.decode = .ok a) ∧
    (bytes (kind.form.encode a)).Carries (kind.form.encode a) ∧
    (numbers (numbersOf (kind.form.encode a))).Carries (kind.form.encode a) ∧
    ∀ rest, (framed (frame (kind.form.encode a) ++ rest)).Carries (kind.form.encode a) := by
  obtain ⟨hread, hlength⟩ := kind.decode_encode_of_isPublished h
  exact ⟨fun e he => decode_eq_ok_iff.mpr ⟨_, he, hread⟩, rfl, rfl,
    fun rest => ⟨hlength, rest, rfl⟩⟩

/-- A proof that has one spelling comes out of no envelope but those that carry this spelling. -/
theorem decode_eq_ok_iff_carries_encode (hkind : kind.form.hasOneSpelling = true) {e : Envelope} :
    e.decode kind kind.form.decode = .ok a ↔
      kind.form.Fits a ∧ e.Carries (kind.form.encode a) := by
  simp only [decode_eq_ok_iff, kind.form.decode_eq_ok_iff hkind]
  constructor
  · rintro ⟨bs, hcarries, hfits, rfl⟩
    exact ⟨hfits, hcarries⟩
  · rintro ⟨hfits, hcarries⟩
    exact ⟨_, hcarries, hfits, rfl⟩

end Envelope

end ConfidentialPayment
