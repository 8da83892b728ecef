import ConfidentialPayment.Coin.Output
import ConfidentialPayment.Proofs.Wire.Parts

/-!
# ConfidentialPayment.Proofs.Coin.Encoding

The strings that decoders of coins accept.

1. A field that is blank may be written behind length zero or in full, and decoders take both. A
   `Coin.Spelling` says which blank fields are written in full; the strings of a coin are its
   spellings (`Coin.ofBytes_eq_ok_iff`).
2. Writers leave all blank fields out, which is the shortest spelling, and the only one of that
   length (`Coin.length_spell`, `Coin.spell_eq_toBytes_iff`).
3. Outputs add a ciphertext, which has one spelling.
-/

namespace ConfidentialPayment

open Reader

namespace Coin

/-! ## Spellings -/

/-- For each field of a coin whether it is written in full where it is blank. -/
structure Spelling where
  publicKey : Bool := false
  commitment : Bool := false
  derivator : Bool := false
  serialNumber : Bool := false
  blinding : Bool := false
  value : Bool := false

/-- A spelling is a choice for each of the six fields. -/
theorem Spelling.exists_iff {R : Spelling → Prop} :
    (∃ s, R s) ↔ ∃ f₁ f₂ f₃ f₄ f₅ f₆, R ⟨f₁, f₂, f₃, f₄, f₅, f₆⟩ :=
  ⟨fun ⟨_, h⟩ => ⟨_, _, _, _, _, _, h⟩, fun ⟨_, _, _, _, _, _, h⟩ => ⟨_, h⟩⟩

/-- How many bytes a field is longer than it has to be. -/
def fieldExcess (blank full : Bool) (length : ℕ) : ℕ := if blank && full then length else 0

/-- Writing a blank field in full costs its length. -/
theorem length_writeField_and {blank full : Bool} {content : Bytes} :
    (writeField (blank && !full) content).length =
      (writeField blank content).length + fieldExcess blank full content.length := by
  cases blank <;> cases full <;> simp [writeField, fieldExcess, Writer.nat8]

/-- A field takes its content and a byte for its length, or less. -/
theorem length_writeField_le (blank : Bool) (content : Bytes) :
    (writeField blank content).length ≤ 1 + content.length := by
  cases blank <;> simp [writeField, Writer.nat8]

/-- A spelling of a field that costs nothing is the shortest one. -/
theorem writeField_and_eq {blank full : Bool} {content : Bytes} {length : ℕ} (hlength : 0 < length)
    (h : fieldExcess blank full length = 0) :
    writeField (blank && !full) content = writeField blank content := by
  cases blank <;> cases full <;> simp [fieldExcess] at h ⊢
  omega

variable {P : Type} [Suite P]

/-- A spelling of a coin. -/
def spell (s : Spelling) (coin : Coin P) : Bytes :=
  writeField (coin.publicKey = 0 && !s.publicKey) (Suite.encode coin.publicKey) ++
    writeField (coin.commitment = 0 && !s.commitment) (Suite.encode coin.commitment) ++
    writeField (coin.derivator = 0 && !s.derivator) coin.derivator.toBytes ++
    writeField (coin.serialNumber = 0 && !s.serialNumber) (Suite.encode coin.serialNumber) ++
    writeField (coin.blinding = 0 && !s.blinding) coin.blinding.toBytes ++
    writeField (coin.value = 0 && !s.value) (Writer.uint64 coin.value) ++
    Writer.nat8 coin.info.length ++ coin.info

/-- How many bytes a spelling of a coin is longer than the shortest one. -/
def excess (s : Spelling) (coin : Coin P) : ℕ :=
  fieldExcess (coin.publicKey = 0) s.publicKey pointLength +
    fieldExcess (coin.commitment = 0) s.commitment pointLength +
    fieldExcess (coin.derivator = 0) s.derivator Scalar.byteLength +
    fieldExcess (coin.serialNumber = 0) s.serialNumber pointLength +
    fieldExcess (coin.blinding = 0) s.blinding Scalar.byteLength +
    fieldExcess (coin.value = 0) s.value valueLength

/-- The encoding of a coin leaves all blank fields out. -/
theorem spell_default (coin : Coin P) : coin.spell {} = coin.toBytes := by
  simp [spell, toBytes, writePoint, writeScalar, writeValue]

/-- An amount takes eight bytes. -/
@[simp] theorem length_uint64 (n : UInt64) : (Writer.uint64 n).length = valueLength :=
  Bytes.length_ofNatBE 8 _

variable [LawfulEncoding P]

/-- A spelling is longer than the shortest one by its excess. -/
theorem length_spell (s : Spelling) (coin : Coin P) :
    (coin.spell s).length = coin.toBytes.length + coin.excess s := by
  simp only [spell, toBytes, writePoint, writeScalar, writeValue, excess, List.length_append,
    length_writeField_and, LawfulEncoding.length_encode, Scalar.length_toBytes, length_uint64]
  omega

/-- No other spelling is as short as the encoding. -/
theorem spell_eq_toBytes_iff {s : Spelling} {coin : Coin P} :
    coin.spell s = coin.toBytes ↔ coin.excess s = 0 := by
  constructor
  · intro h
    have hlength := coin.length_spell s
    rw [h] at hlength
    omega
  · intro h
    simp only [excess, Nat.add_eq_zero_iff] at h
    obtain ⟨⟨⟨⟨⟨h₁, h₂⟩, h₃⟩, h₄⟩, h₅⟩, h₆⟩ := h
    simp only [spell, toBytes, writePoint, writeScalar, writeValue,
      writeField_and_eq (by decide) h₁, writeField_and_eq (by decide) h₂,
      writeField_and_eq (by decide) h₃, writeField_and_eq (by decide) h₄,
      writeField_and_eq (by decide) h₅, writeField_and_eq (by decide) h₆]

/-! ## Reading coins -/

omit [Suite P] [LawfulEncoding P] in
/-- The length in front of a field says whether the field is written in full or is blank. -/
theorem recognizes_readLength (field : String) {length : ℕ} (hpos : 0 < length)
    (hfits : length < 256) : Recognizes (readLength field length) fun full bs =>
      bs = Writer.nat8 (if full then length else 0) := by
  refine ((recognizes_nat8 field).andThen fun n => (recognizes_pure false).ite
    ((recognizes_pure true).ite (recognizes_fail _))).congr fun full bs => ?_
  constructor
  · rintro ⟨n, _, back, ⟨-, rfl⟩, hn, rfl⟩
    by_cases hzero : n = 0
    · rw [if_pos hzero] at hn
      obtain ⟨rfl, rfl⟩ := hn
      rw [hzero]
      exact List.append_nil _
    · rw [if_neg hzero] at hn
      by_cases hlength : n = length
      · rw [if_pos hlength] at hn
        obtain ⟨rfl, rfl⟩ := hn
        rw [hlength]
        exact List.append_nil _
      · rw [if_neg hlength] at hn
        exact hn.elim
  · rintro rfl
    cases full with
    | false => exact ⟨0, _, [], ⟨by decide, rfl⟩, ⟨rfl, rfl⟩, (List.append_nil _).symm⟩
    | true =>
      refine ⟨length, _, [], ⟨hfits, rfl⟩, ?_, (List.append_nil _).symm⟩
      rw [if_neg (Nat.ne_of_gt hpos), if_pos rfl]
      exact ⟨rfl, rfl⟩

omit [Suite P] [LawfulEncoding P] in
/-- A field with content may hold any value, and one without content is blank. -/
theorem recognizes_field {α : Type} [DecidableEq α] (field : String) {length : ℕ}
    (hpos : 0 < length) (hfits : length < 256) {read : Reader α} {write : α → Bytes} (blank : α)
    (hread : Recognizes read fun a bs => bs = write a)
    (hlength : ∀ a, (write a).length = length) :
    Recognizes (do if ← readLength field length then read else return blank) fun a bs =>
      ∃ full : Bool, bs = writeField (a = blank && !full) (write a) := by
  refine ((recognizes_readLength field hpos hfits).andThen fun full =>
    hread.ite (recognizes_pure blank)).congr fun a bs => ?_
  constructor
  · rintro ⟨full, _, back, rfl, hback, rfl⟩
    cases full with
    | false =>
      obtain ⟨rfl, rfl⟩ : a = blank ∧ back = [] := hback
      exact ⟨false, by simp [writeField]⟩
    | true =>
      obtain rfl : back = write a := hback
      exact ⟨true, by simp [writeField, hlength]⟩
  · rintro ⟨full, rfl⟩
    by_cases hblank : (decide (a = blank) && !full) = true
    · obtain ⟨ha, -⟩ := Bool.and_eq_true_iff.mp hblank
      refine ⟨false, _, [], rfl, ⟨of_decide_eq_true ha, rfl⟩, ?_⟩
      rw [writeField, if_pos hblank]
      exact (List.append_nil _).symm
    · refine ⟨true, _, write a, rfl, rfl, ?_⟩
      rw [writeField, if_neg hblank, hlength]
      rfl

/-- The reader of coins accepts every spelling of a coin with a short info, and nothing else. -/
theorem recognizes_reader : Recognizes Coin.reader fun (coin : Coin P) bs =>
    coin.info.length ≤ maxInfoLength ∧ ∃ s, bs = coin.spell s := by
  have hpoint (field) : Recognizes (readPoint field) fun (p : P) bs =>
      ∃ full : Bool, bs = writeField (p = 0 && !full) (Suite.encode p) :=
    recognizes_field field (by decide) (by decide) 0 (recognizes_point field)
      LawfulEncoding.length_encode
  have hscalar (field) : Recognizes (readScalar field) fun x bs =>
      ∃ full : Bool, bs = writeField (x = 0 && !full) x.toBytes :=
    recognizes_field field (by decide) (by decide) 0 (recognizes_scalar field)
      Scalar.length_toBytes
  have hvalue (field) : Recognizes (readValue field) fun v bs =>
      ∃ full : Bool, bs = writeField (v = 0 && !full) (Writer.uint64 v) :=
    recognizes_field field (by decide) (by decide) 0 (recognizes_uint64 field) length_uint64
  refine ((hpoint _).andThen fun _ => (hpoint _).andThen fun _ => (hscalar _).andThen fun _ =>
    (hpoint _).andThen fun _ => (hscalar _).andThen fun _ => (hvalue _).andThen fun _ =>
    (recognizes_nat8 _).andThen fun _ => (recognizes_bytes _ _).andThen fun _ =>
    recognizes_pure _).congr ?_
  rintro ⟨publicKey, commitment, derivator, serialNumber, blinding, value, info⟩ bs
  have hinfo : info.length < 256 ↔ info.length ≤ maxInfoLength := Nat.lt_succ_iff
  simp [spell, Spelling.exists_iff, hinfo, -Bool.exists_bool]

/-- A string is read as a coin exactly if it is one of the spellings of this coin. -/
theorem ofBytes_eq_ok_iff {bs : Bytes} {coin : Coin P} :
    ofBytes bs = .ok coin ↔ coin.info.length ≤ maxInfoLength ∧ ∃ s, bs = coin.spell s :=
  recognizes_reader.decode_eq_ok_iff

/-- A coin reads back, if its info is not too long. -/
theorem ofBytes_toBytes {coin : Coin P} (h : coin.info.length ≤ maxInfoLength) :
    ofBytes coin.toBytes = .ok coin :=
  ofBytes_eq_ok_iff.mpr ⟨h, {}, (spell_default coin).symm⟩

/-- Seven lengths and all contents. -/
theorem length_spell_le (s : Spelling) (coin : Coin P) :
    (coin.spell s).length ≤ 7 + 3 * pointLength + 2 * Scalar.byteLength + valueLength +
      coin.info.length := by
  have hpoint (p : P) (full : Bool) := length_writeField_le (p = 0 && !full) (Suite.encode p)
  have hscalar (x : Scalar) (full : Bool) := length_writeField_le (x = 0 && !full) x.toBytes
  have hvalue := length_writeField_le (coin.value = 0 && !s.value) (Writer.uint64 coin.value)
  simp only [LawfulEncoding.length_encode, Scalar.length_toBytes, length_uint64] at *
  have h₁ := hpoint coin.publicKey s.publicKey
  have h₂ := hpoint coin.commitment s.commitment
  have h₃ := hscalar coin.derivator s.derivator
  have h₄ := hpoint coin.serialNumber s.serialNumber
  have h₅ := hscalar coin.blinding s.blinding
  have hlength : (Writer.nat8 coin.info.length).length = 1 := Bytes.length_ofNatBE 1 _
  simp only [spell, List.length_append, hlength]
  omega

/-- Every spelling fits behind a length of two bytes. -/
theorem length_spell_lt {coin : Coin P} (h : coin.info.length ≤ maxInfoLength) (s : Spelling) :
    (coin.spell s).length < 65536 := by
  have hle := length_spell_le s coin
  simp only [pointLength, Scalar.byteLength, valueLength, maxInfoLength] at hle h
  omega

end Coin

namespace OutputCoin

variable {P : Type} [Suite P]

/-- A spelling of an output: the ciphertext has one, its coin may have others. -/
def spell (s : Coin.Spelling) (output : OutputCoin P) : Bytes :=
  Writer.nat16 output.ciphertext.toBytes.length ++ output.ciphertext.toBytes ++
    output.coin.spell s

/-- The encoder chooses the default spelling. -/
theorem spell_default (output : OutputCoin P) : output.spell {} = output.toBytes := by
  rw [spell, Coin.spell_default]
  rfl

/-- What an output has to be like to be written without loss. -/
structure IsWritable (output : OutputCoin P) : Prop where
  info : output.coin.info.length ≤ Coin.maxInfoLength
  hasKey : output.ciphertext.HasKey
  ciphertext : output.ciphertext.toBytes.length < 65536

variable [LawfulEncoding P]

/-- The excess of an output is that of its coin. -/
theorem length_spell (s : Coin.Spelling) (output : OutputCoin P) :
    (output.spell s).length = output.toBytes.length + output.coin.excess s := by
  simp only [spell, toBytes, List.length_append, Coin.length_spell, Nat.add_assoc]

/-- A spelling of an output is the shortest one exactly if its coin has no excess. -/
theorem spell_eq_toBytes_iff {s : Coin.Spelling} {output : OutputCoin P} :
    output.spell s = output.toBytes ↔ output.coin.excess s = 0 := by
  rw [← Coin.spell_eq_toBytes_iff, spell, toBytes]
  exact List.append_right_inj _

/-- The reader of outputs accepts every spelling of an output that can be written, and nothing
else. -/
theorem recognizes_reader : Recognizes OutputCoin.reader fun (output : OutputCoin P) bs =>
    output.IsWritable ∧ ∃ s, bs = output.spell s := by
  refine ((recognizes_nat16 _).andThen fun _ => (recognizes_bytes _ _).andThen fun _ =>
    (recognizes_within _ _).andThen fun _ => Coin.recognizes_reader.andThen fun _ =>
    recognizes_pure _).congr ?_
  rintro ⟨coin, ciphertext⟩ bs
  have hwritable : IsWritable ⟨coin, ciphertext⟩ ↔ ciphertext.toBytes.length < 65536 ∧
      ciphertext.HasKey ∧ coin.info.length ≤ Coin.maxInfoLength :=
    ⟨fun h => ⟨h.ciphertext, h.hasKey, h.info⟩, fun ⟨h₁, h₂, h₃⟩ => ⟨h₃, h₂, h₁⟩⟩
  simp [spell, Hybrid.ofBytes_eq_ok_iff, hwritable, and_assoc]

/-- A string is read as an output exactly if it is one of the spellings of this output. -/
theorem ofBytes_eq_ok_iff {bs : Bytes} {output : OutputCoin P} :
    ofBytes bs = .ok output ↔ output.IsWritable ∧ ∃ s, bs = output.spell s :=
  recognizes_reader.decode_eq_ok_iff

/-- An output that can be written is read back from its encoding. -/
theorem ofBytes_toBytes {output : OutputCoin P} (h : output.IsWritable) :
    ofBytes output.toBytes = .ok output :=
  ofBytes_eq_ok_iff.mpr ⟨h, {}, (spell_default output).symm⟩

end OutputCoin

end ConfidentialPayment
