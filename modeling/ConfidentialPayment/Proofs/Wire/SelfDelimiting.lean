import ConfidentialPayment.Payment.Encoding
import ConfidentialPayment.Proofs.Payment.Encoding

/-!
# ConfidentialPayment.Proofs.Wire.SelfDelimiting

No accepted string begins another one.

1. A reader is local if it reads the same whatever comes behind the bytes that it takes. All
   readers of the library are, but one: the ring indices of a payment are counted by what remains.
2. A reader is self-delimiting if it cannot end with two strings of which one begins the other.
   Local readers are, and a reader of ring indices is because it asks for a fixed number of bytes;
   in front of it there may be any local reader (`IsLocal.bind_selfDelimiting`).

Nothing is assumed of the encoding of points.
-/

namespace ConfidentialPayment

/-- The same place with more bytes behind it. -/
def Cursor.extend (cursor : Cursor) (extra : Bytes) : Cursor :=
  ⟨cursor.offset, cursor.rest ++ extra⟩

namespace Reader

variable {α β : Type}

/-- What is read does not depend on what comes behind it. -/
def IsLocal (read : Reader α) : Prop :=
  ∀ cursor a cursor' extra, read.run cursor = .ok (a, cursor') →
    read.run (cursor.extend extra) = .ok (a, cursor'.extend extra)

/-- The reader takes all that remains. -/
def TakesAll (read : Reader α) (cursor : Cursor) : Prop :=
  ∃ a cursor', read.run cursor = .ok (a, cursor') ∧ cursor'.rest = []

/-- Of two strings of which one begins the other the reader takes one at most. -/
def SelfDelimiting (read : Reader α) : Prop :=
  ∀ cursor extra, TakesAll read cursor → TakesAll read (cursor.extend extra) → extra = []

variable {read : Reader α} {next : α → Reader β}

/-! ## Local readers -/

/-- A reader of certain strings looks at nothing else. -/
theorem Recognizes.isLocal {S : α → Bytes → Prop} (h : Recognizes read S) : IsLocal read := by
  intro cursor a cursor' extra hread
  obtain ⟨bs, hbs, hrest, hoffset⟩ := (h _ _ _).mp hread
  refine (h _ _ _).mpr ⟨bs, hbs, ?_, hoffset⟩
  rw [Cursor.extend, Cursor.extend, hrest, List.append_assoc]

theorem isLocal_pure (a : α) : IsLocal (pure a) := (recognizes_pure a).isLocal

theorem isLocal_fail (cause : Error) : IsLocal (fail cause : Reader α) :=
  (recognizes_fail cause).isLocal

/-- Taking bytes depends on no byte behind them. -/
theorem isLocal_bytes (field : String) (count : ℕ) : IsLocal (bytes field count) :=
  (recognizes_bytes field count).isLocal

theorem isLocal_within (field : String) (result : Except Error α) :
    IsLocal (within field result) := (recognizes_within field result).isLocal

theorem isLocal_nat8 (field : String) : IsLocal (nat8 field) := (recognizes_nat8 field).isLocal

theorem isLocal_nat16 (field : String) : IsLocal (nat16 field) := (recognizes_nat16 field).isLocal

theorem isLocal_uint64 (field : String) : IsLocal (uint64 field) :=
  (recognizes_uint64 field).isLocal

/-- Neither of two readers looks behind what it takes, so their sequence does not. -/
theorem IsLocal.bind (h : IsLocal read) (hnext : ∀ a, IsLocal (next a)) :
    IsLocal (read >>= next) := by
  intro cursor b cursor' extra hread
  obtain ⟨a, middle, hfirst, hsecond⟩ := bind_run_eq_ok.mp hread
  exact bind_run_eq_ok.mpr
    ⟨a, _, h _ _ _ extra hfirst, hnext a _ _ _ extra hsecond⟩

/-- Changing the result looks at no further byte. -/
theorem IsLocal.map (h : IsLocal read) (f : α → β) : IsLocal (f <$> read) := by
  rw [← bind_pure_comp]
  exact h.bind fun a => isLocal_pure (f a)

/-- What is known beforehand may decide how to read on. -/
theorem IsLocal.ite {c : Prop} [Decidable c] {read' : Reader α} (h : IsLocal read)
    (h' : IsLocal read') : IsLocal (if c then read else read') := by
  by_cases hc : c
  · rwa [if_pos hc]
  · rwa [if_neg hc]

theorem isLocal_point {P : Type} [Suite P] (field : String) : IsLocal (point field : Reader P) :=
  (isLocal_bytes field _).bind fun _ => isLocal_within field _

theorem isLocal_scalar (field : String) : IsLocal (scalar field) :=
  (isLocal_bytes field _).bind fun _ => isLocal_within field _

/-- Reading repeatedly looks no further than reading once. -/
theorem isLocal_repeated (h : IsLocal read) (count : ℕ) : IsLocal (repeated read count) := by
  induction count with
  | zero => exact isLocal_pure []
  | succ count ih => exact h.bind fun a => ih.bind fun as => isLocal_pure (a :: as)

theorem isLocal_points {P : Type} [Suite P] (field : String) (count : ℕ) :
    IsLocal (points field count : Reader (List P)) := isLocal_repeated (isLocal_point field) count

/-! ## Self-delimiting readers -/

/-- A local reader leaves everything that comes behind. -/
theorem IsLocal.selfDelimiting (h : IsLocal read) : SelfDelimiting read := by
  rintro cursor extra ⟨a, cursor', hread, hrest⟩ ⟨b, cursor'', hread', hrest'⟩
  have hextended := h _ _ _ extra hread
  rw [hread'] at hextended
  obtain ⟨-, rfl⟩ := Prod.mk.inj (Except.ok.inj hextended)
  rw [Cursor.extend, hrest, List.nil_append] at hrest'
  exact hrest'

/-- If the last reader says where the string ends, so does the sequence. -/
theorem IsLocal.bind_selfDelimiting (h : IsLocal read) (hnext : ∀ a, SelfDelimiting (next a)) :
    SelfDelimiting (read >>= next) := by
  rintro cursor extra ⟨b, cursor', hread, hrest⟩ ⟨b', cursor'', hread', hrest'⟩
  obtain ⟨a, middle, hfirst, hsecond⟩ := bind_run_eq_ok.mp hread
  obtain ⟨a', middle', hfirst', hsecond'⟩ := bind_run_eq_ok.mp hread'
  -- locality makes both runs go on from the same result
  have hextended := h _ _ _ extra hfirst
  rw [hfirst'] at hextended
  obtain ⟨rfl, rfl⟩ := Prod.mk.inj (Except.ok.inj hextended)
  exact hnext a' middle extra ⟨b, cursor', hsecond, hrest⟩ ⟨b', cursor'', hsecond', hrest'⟩

/-- Changing the result does not move the end of the string. -/
theorem SelfDelimiting.bind_pure (h : SelfDelimiting read) (f : α → β) :
    SelfDelimiting (read >>= fun a => pure (f a)) := by
  have htakes {cursor : Cursor} (hall : TakesAll (read >>= fun a => pure (f a)) cursor) :
      TakesAll read cursor := by
    obtain ⟨b, cursor', hread, hrest⟩ := hall
    obtain ⟨a, middle, hfirst, hsecond⟩ := bind_run_eq_ok.mp hread
    obtain ⟨-, rfl⟩ := Prod.mk.inj (pure_eq_ok.mp hsecond)
    exact ⟨a, middle, hfirst, hrest⟩
  exact fun cursor extra hall hall' => h cursor extra (htakes hall) (htakes hall')

/-- What a decoder accepts is not the beginning of anything else that it accepts. -/
theorem SelfDelimiting.eq_of_isPrefix (h : SelfDelimiting read) {bs bs' : Bytes} {a a' : α}
    (ha : decode read bs = .ok a) (ha' : decode read bs' = .ok a') (hbegins : bs <+: bs') :
    bs = bs' := by
  have htakes {bs : Bytes} {a : α} (ha : decode read bs = .ok a) : TakesAll read ⟨0, bs⟩ := by
    unfold decode at ha
    obtain ⟨⟨b, cursor⟩, hread, hend⟩ := bind_eq_ok.mp ha
    obtain ⟨⟨⟨⟩, _⟩, hfinish, -⟩ := bind_eq_ok.mp hend
    exact ⟨b, cursor, hread, (finish_run_eq_ok.mp hfinish).1⟩
  obtain ⟨extra, rfl⟩ := hbegins
  rw [h ⟨0, bs⟩ extra (htakes ha) (htakes ha'), List.append_nil]

end Reader

/-! ## The readers of the library -/

open Reader

variable {P : Type} [Suite P]

theorem InnerProduct.isLocal_reader : IsLocal (Proof.reader : Reader (Proof P)) :=
  recognizes_readRoundCount.isLocal.bind fun _ => (isLocal_points _ _).bind fun _ =>
    (isLocal_points _ _).bind fun _ => (isLocal_scalar _).bind fun _ =>
    (isLocal_scalar _).bind fun _ => (isLocal_point _).bind fun _ => isLocal_pure _

theorem RangeProof.isLocal_reader : IsLocal (Proof.reader : Reader (Proof P)) :=
  recognizes_readCount.isLocal.bind fun _ => (isLocal_points _ _).bind fun _ =>
    (isLocal_point _).bind fun _ => (isLocal_point _).bind fun _ =>
    (isLocal_point _).bind fun _ => (isLocal_point _).bind fun _ =>
    (isLocal_scalar _).bind fun _ => (isLocal_scalar _).bind fun _ =>
    (isLocal_scalar _).bind fun _ => InnerProduct.isLocal_reader.bind fun _ => isLocal_pure _

/-- A field that may be blank says its length first. -/
theorem Coin.isLocal_field {α : Type} (field : String) (length : ℕ) {read : Reader α}
    (h : IsLocal read) (blank : α) :
    IsLocal (do if ← readLength field length then read else return blank) :=
  ((isLocal_nat8 field).bind fun _ => (isLocal_pure _).ite
    ((isLocal_pure _).ite (isLocal_fail _))).bind fun _ => h.ite (isLocal_pure _)

theorem Coin.isLocal_reader : IsLocal (reader : Reader (Coin P)) :=
  (isLocal_field _ _ (isLocal_point _) _).bind fun _ =>
    (isLocal_field _ _ (isLocal_point _) _).bind fun _ =>
    (isLocal_field _ _ (isLocal_scalar _) _).bind fun _ =>
    (isLocal_field _ _ (isLocal_point _) _).bind fun _ =>
    (isLocal_field _ _ (isLocal_scalar _) _).bind fun _ =>
    (isLocal_field _ _ (isLocal_uint64 _) _).bind fun _ =>
    (isLocal_nat8 _).bind fun _ => (isLocal_bytes _ _).bind fun _ => isLocal_pure _

theorem OutputCoin.isLocal_reader : IsLocal (reader : Reader (OutputCoin P)) :=
  (isLocal_nat16 _).bind fun _ => (isLocal_bytes _ _).bind fun _ =>
    (isLocal_within _ _).bind fun _ => Coin.isLocal_reader.bind fun _ => isLocal_pure _

namespace Payment

/-- A list of items says its number first, and each item its length. -/
theorem isLocal_readItems {α : Type} (field : String) (decode : Bytes → Except Error α) :
    IsLocal (readItems field decode) := (recognizes_readItems field decode).isLocal

/-- An item that may be missing says its length first. -/
theorem isLocal_readOptionalItem {α : Type} (field : String) (decode : Bytes → Except Error α) :
    IsLocal (readOptionalItem field decode) :=
  (recognizes_readItem field).isLocal.bind fun _ =>
    (isLocal_pure _).ite ((isLocal_within _ _).map _)

theorem isLocal_readPoints (field : String) : IsLocal (readPoints field : Reader (List P)) :=
  (isLocal_nat16 field).bind fun _ => isLocal_points _ _

theorem isLocal_readOptionalPoint (field : String) :
    IsLocal (readOptionalPoint field : Reader (Option P)) :=
  (isLocal_nat16 field).bind fun _ => (isLocal_pure _).ite
    (((isLocal_point _).map _).ite (isLocal_fail _))

/-- As many bytes have to remain as the indices take. -/
theorem selfDelimiting_readIndices (count : ℕ) : SelfDelimiting (readIndices count) := by
  have hlength {cursor : Cursor} (h : TakesAll (readIndices count) cursor) :
      cursor.rest.length = count * indexLength := by
    obtain ⟨indices, cursor', hread, -⟩ := h
    obtain ⟨left, middle, hleft, hread⟩ := bind_run_eq_ok.mp hread
    obtain ⟨rfl, rfl⟩ : cursor.rest.length = left ∧ cursor = middle :=
      Prod.mk.inj (Except.ok.inj hleft)
    by_contra hne
    rw [if_neg hne] at hread
    exact (((recognizes_fail _) _ _ _).mp hread).elim fun _ h => h.1
  intro cursor extra hall hall'
  have hextended := hlength hall'
  rw [Cursor.extend, List.length_append, hlength hall, Nat.add_eq_left] at hextended
  exact List.eq_nil_of_length_eq_zero hextended

/-- Payments say where they end: the indices at the end are counted by the membership proofs. -/
theorem selfDelimiting_reader : SelfDelimiting (Proof.reader : Reader (Proof P)) :=
  (isLocal_readItems _ _).bind_selfDelimiting fun _ =>
    (isLocal_readItems _ _).bind_selfDelimiting fun _ =>
    (isLocal_readItems _ _).bind_selfDelimiting fun _ =>
    (isLocal_readOptionalItem _ _).bind_selfDelimiting fun _ =>
    (isLocal_readItems _ _).bind_selfDelimiting fun _ =>
    (isLocal_readItems _ _).bind_selfDelimiting fun _ =>
    (isLocal_readPoints _).bind_selfDelimiting fun _ =>
    (isLocal_readPoints _).bind_selfDelimiting fun _ =>
    (isLocal_readPoints _).bind_selfDelimiting fun _ =>
    (isLocal_readOptionalPoint _).bind_selfDelimiting fun _ =>
    (isLocal_readPoints _).bind_selfDelimiting fun _ =>
    (isLocal_readPoints _).bind_selfDelimiting fun _ =>
    (isLocal_readOptionalPoint _).bind_selfDelimiting fun _ =>
    (selfDelimiting_readIndices _).bind_pure _

end Payment

end ConfidentialPayment
