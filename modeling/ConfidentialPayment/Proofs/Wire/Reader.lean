import ConfidentialPayment.Proofs.Lists
import ConfidentialPayment.Proofs.Runs
import ConfidentialPayment.Wire

/-!
# ConfidentialPayment.Proofs.Wire.Reader

What readers read.

1. `Recognizes read S` says that a reader takes exactly the strings of a relation from the front of
   its cursor. There is one such law for every reader of the library and one for every way of
   putting readers together, so the strings that a decoder accepts are known without its cursor
   (`Recognizes.decode_eq_ok_iff`).
2. `Exhausts read S` is the same for readers that look at all that remains.
3. Numbers, points and scalars have one spelling each: what is read is what writers write.
-/

namespace ConfidentialPayment

namespace Reader

variable {α β : Type}

/-- The reader takes exactly the strings of a relation from the front of a cursor, and its result is
what the relation says of them. -/
def Recognizes (read : Reader α) (S : α → Bytes → Prop) : Prop :=
  ∀ cursor a cursor', read.run cursor = .ok (a, cursor') ↔
    ∃ bs, S a bs ∧ cursor.rest = bs ++ cursor'.rest ∧ cursor'.offset = cursor.offset + bs.length

/-- The reader takes exactly the strings of a relation if nothing comes behind them. -/
def Exhausts (read : Reader α) (S : α → Bytes → Prop) : Prop :=
  ∀ cursor a, (∃ cursor', read.run cursor = .ok (a, cursor') ∧ cursor'.rest = []) ↔
    S a cursor.rest

variable {read : Reader α} {next : α → Reader β} {S S' : α → Bytes → Prop}
  {T : α → β → Bytes → Prop}

/-! ## Putting readers together -/

theorem Recognizes.congr (h : Recognizes read S) (hS : ∀ a bs, S a bs ↔ S' a bs) :
    Recognizes read S' := by
  intro cursor a cursor'
  simp only [h cursor a cursor', hS]

theorem Exhausts.congr (h : Exhausts read S) (hS : ∀ a bs, S a bs ↔ S' a bs) :
    Exhausts read S' := fun cursor a => (h cursor a).trans (hS a cursor.rest)

/-- A sequence of readers succeeds through a cursor in the middle. -/
theorem bind_run_eq_ok {cursor cursor' : Cursor} {b : β} :
    (read >>= next).run cursor = .ok (b, cursor') ↔
      ∃ a middle, read.run cursor = .ok (a, middle) ∧ (next a).run middle = .ok (b, cursor') := by
  rw [StateT.run_bind, bind_eq_ok, Prod.exists]

/-- A reader that is done takes nothing. -/
theorem recognizes_pure (a : α) : Recognizes (pure a) fun a' bs => a' = a ∧ bs = [] := by
  intro cursor a' cursor'
  rw [StateT.run_pure, pure_eq_ok, Prod.mk.injEq]
  constructor
  · rintro ⟨rfl, rfl⟩
    exact ⟨[], ⟨rfl, rfl⟩, rfl, rfl⟩
  · rintro ⟨_, ⟨rfl, rfl⟩, hrest, hoffset⟩
    refine ⟨rfl, ?_⟩
    cases cursor
    cases cursor'
    simp_all

/-- A reader that fails accepts nothing. -/
theorem recognizes_fail (cause : Error) : Recognizes (fail cause : Reader α) fun _ _ => False := by
  intro cursor a cursor'
  simp [fail, throw, throwThe, MonadExceptOf.throw, StateT.run, StateT.lift]

/-- A string of a sequence is a string of the first reader followed by one of the second. -/
theorem Recognizes.bind (h : Recognizes read S)
    (hnext : ∀ a bs, S a bs → Recognizes (next a) (T a)) :
    Recognizes (read >>= next) fun b bs =>
      ∃ a front back, S a front ∧ T a b back ∧ bs = front ++ back := by
  intro cursor b cursor'
  rw [bind_run_eq_ok]
  constructor
  · rintro ⟨a, middle, hread, hb⟩
    obtain ⟨front, hfront, hrest, hoffset⟩ := (h cursor a middle).mp hread
    obtain ⟨back, hback, hrest', hoffset'⟩ := (hnext a front hfront middle b cursor').mp hb
    refine ⟨front ++ back, ⟨a, front, back, hfront, hback, rfl⟩, ?_, ?_⟩
    · rw [hrest, hrest', List.append_assoc]
    · rw [hoffset', hoffset, List.length_append, Nat.add_assoc]
  · rintro ⟨_, ⟨a, front, back, hfront, hback, rfl⟩, hrest, hoffset⟩
    rw [List.append_assoc] at hrest
    rw [List.length_append, ← Nat.add_assoc] at hoffset
    refine ⟨a, ⟨cursor.offset + front.length, back ++ cursor'.rest⟩, ?_, ?_⟩
    · exact (h _ _ _).mpr ⟨front, hfront, hrest, rfl⟩
    · exact (hnext a front hfront _ _ _).mpr ⟨back, hback, rfl, hoffset⟩

/-- Nothing has to be known of the first result. -/
theorem Recognizes.andThen (h : Recognizes read S) (hnext : ∀ a, Recognizes (next a) (T a)) :
    Recognizes (read >>= next) fun b bs =>
      ∃ a front back, S a front ∧ T a b back ∧ bs = front ++ back :=
  h.bind fun a _ _ => hnext a

/-- Changing the result changes nothing about the strings. -/
theorem Recognizes.map (h : Recognizes read S) (f : α → β) :
    Recognizes (f <$> read) fun b bs => ∃ a, S a bs ∧ b = f a := by
  rw [← bind_pure_comp]
  refine (h.andThen fun a => recognizes_pure (f a)).congr fun b bs => ?_
  simp

/-- What is known beforehand may decide how to read on. -/
theorem Recognizes.ite {c : Prop} [Decidable c] {read' : Reader α} (h : Recognizes read S)
    (h' : Recognizes read' S') :
    Recognizes (if c then read else read') fun a bs => if c then S a bs else S' a bs := by
  by_cases hc : c
  · simpa only [if_pos hc] using h
  · simpa only [if_neg hc] using h'

/-- A reader may look at all that remains if nothing comes behind it. -/
theorem Recognizes.exhausts (h : Recognizes read S) : Exhausts read S := by
  intro cursor a
  constructor
  · rintro ⟨cursor', hread, hrest⟩
    obtain ⟨bs, hbs, hsplit, -⟩ := (h cursor a cursor').mp hread
    rwa [hsplit, hrest, List.append_nil]
  · intro ha
    refine ⟨⟨cursor.offset + cursor.rest.length, []⟩, ?_, rfl⟩
    exact (h _ _ _).mpr ⟨cursor.rest, ha, (List.append_nil _).symm, rfl⟩

/-- After a reader that says where its string ends, another one takes all the rest. -/
theorem Recognizes.bind_exhausts (h : Recognizes read S)
    (hnext : ∀ a bs, S a bs → Exhausts (next a) (T a)) :
    Exhausts (read >>= next) fun b bs =>
      ∃ a front back, S a front ∧ T a b back ∧ bs = front ++ back := by
  intro cursor b
  simp only [bind_run_eq_ok]
  constructor
  · rintro ⟨cursor', ⟨a, middle, hread, hb⟩, hrest⟩
    obtain ⟨front, hfront, hsplit, -⟩ := (h cursor a middle).mp hread
    exact ⟨a, front, middle.rest, hfront, (hnext a front hfront middle b).mp ⟨cursor', hb, hrest⟩,
      hsplit⟩
  · rintro ⟨a, front, back, hfront, hback, hsplit⟩
    obtain ⟨cursor', hb, hrest⟩ :=
      (hnext a front hfront ⟨cursor.offset + front.length, back⟩ b).mpr hback
    exact ⟨cursor', ⟨a, _, (h _ _ _).mpr ⟨front, hfront, hsplit, rfl⟩, hb⟩, hrest⟩

/-- Changing the result changes nothing about the rest. -/
theorem Exhausts.bind_pure (h : Exhausts read S) (f : α → β) :
    Exhausts (read >>= fun a => pure (f a)) fun b bs => ∃ a, S a bs ∧ b = f a := by
  intro cursor b
  simp only [bind_run_eq_ok, StateT.run_pure, pure_eq_ok, Prod.mk.injEq]
  constructor
  · rintro ⟨_, ⟨a, _, hread, rfl, rfl⟩, hrest⟩
    exact ⟨a, (h cursor a).mp ⟨_, hread, hrest⟩, rfl⟩
  · rintro ⟨a, ha, rfl⟩
    obtain ⟨cursor', hread, hrest⟩ := (h cursor a).mpr ha
    exact ⟨cursor', ⟨a, cursor', hread, rfl, rfl⟩, hrest⟩

/-! ## Whole strings -/

/-- A reader is done only if nothing is left. -/
theorem finish_run_eq_ok {cursor cursor' : Cursor} :
    finish.run cursor = .ok ((), cursor') ↔ cursor.rest = [] ∧ cursor = cursor' := by
  have hget : finish.run cursor =
      (if cursor.rest.isEmpty then pure () else fail
        (.lengthMismatch cursor.offset (cursor.offset + cursor.rest.length))).run cursor := rfl
  rw [hget]
  by_cases h : cursor.rest = []
  · simp [h, StateT.run_pure, pure_eq_ok]
  · simp [h, fail, throw, throwThe, MonadExceptOf.throw, StateT.run, StateT.lift]

/-- A reader decodes exactly the strings that it takes when nothing comes behind them. -/
theorem Exhausts.decode_eq_ok_iff (h : Exhausts read S) {bs : Bytes} {a : α} :
    decode read bs = .ok a ↔ S a bs := by
  unfold decode
  rw [bind_eq_ok, Prod.exists]
  simp only [bind_eq_ok, Prod.exists, pure_eq_ok, ← h ⟨0, bs⟩ a]
  constructor
  · rintro ⟨_, cursor', hread, ⟨⟩, _, hfinish, rfl⟩
    exact ⟨cursor', hread, (finish_run_eq_ok.mp hfinish).1⟩
  · rintro ⟨cursor', hread, hrest⟩
    exact ⟨a, cursor', hread, (), cursor', finish_run_eq_ok.mpr ⟨hrest, rfl⟩, rfl⟩

/-- A decoder accepts exactly the strings of its reader, as a whole. -/
theorem Recognizes.decode_eq_ok_iff (h : Recognizes read S) {bs : Bytes} {a : α} :
    decode read bs = .ok a ↔ S a bs := h.exhausts.decode_eq_ok_iff

/-- A fixed length is no condition if it is the length of all strings. -/
theorem Recognizes.decodeFixed_eq_ok_iff (h : Recognizes read S) {length : ℕ}
    (hlength : ∀ a bs, S a bs → bs.length = length) {bs : Bytes} {a : α} :
    decodeFixed length read bs = .ok a ↔ S a bs := by
  unfold decodeFixed
  by_cases hbs : bs.length = length
  · rw [if_pos hbs, h.decode_eq_ok_iff]
  · rw [if_neg hbs]
    refine ⟨fun hok => ?_, fun ha => absurd (hlength a bs ha) hbs⟩
    cases hok

/-! ## Parts -/

/-- A nested decoder reads nothing. -/
theorem recognizes_within (field : String) (result : Except Error α) :
    Recognizes (within field result) fun a bs => result = .ok a ∧ bs = [] := by
  cases result with
  | ok a => exact (recognizes_pure a).congr fun a' bs => by simp [eq_comm]
  | error cause => exact (recognizes_fail _).congr fun a' bs => by simp

/-- Any string of the right length is taken as it is. -/
theorem recognizes_bytes (field : String) (count : ℕ) :
    Recognizes (bytes field count) fun taken bs => taken.length = count ∧ bs = taken := by
  intro cursor taken cursor'
  have hrun : (bytes field count).run cursor =
      if (cursor.rest.take count).length = count then
        .ok (cursor.rest.take count, ⟨cursor.offset + count, cursor.rest.drop count⟩)
      else .error (.missingBytes field count cursor.rest.length) := rfl
  rw [hrun]
  constructor
  · intro h
    split at h
    · next hlength =>
      cases h
      exact ⟨_, ⟨hlength, rfl⟩, (List.take_append_drop ..).symm, by rw [hlength]⟩
    · cases h
  · rintro ⟨_, ⟨hlength, rfl⟩, hrest, hoffset⟩
    rw [hrest, Bytes.take_append_of_length hlength, Bytes.drop_append_of_length hlength,
      if_pos hlength, ← hlength, ← hoffset]

/-- A number that fits the width has one string of this width. -/
theorem recognizes_natBE (field : String) (width : ℕ) :
    Recognizes (Bytes.toNatBE <$> bytes field width) fun n bs =>
      n < 256 ^ width ∧ bs = Bytes.ofNatBE width n := by
  refine ((recognizes_bytes field width).map Bytes.toNatBE).congr fun n bs => ?_
  constructor
  · rintro ⟨_, ⟨rfl, rfl⟩, rfl⟩
    exact ⟨Bytes.toNatBE_lt bs, (Bytes.ofNatBE_toNatBE bs).symm⟩
  · rintro ⟨hn, rfl⟩
    exact ⟨_, ⟨Bytes.length_ofNatBE width n, rfl⟩, (Bytes.toNatBE_ofNatBE_of_lt hn).symm⟩

theorem recognizes_nat8 (field : String) :
    Recognizes (nat8 field) fun n bs => n < 256 ∧ bs = Writer.nat8 n := recognizes_natBE field 1

theorem recognizes_nat16 (field : String) :
    Recognizes (nat16 field) fun n bs => n < 65536 ∧ bs = Writer.nat16 n :=
  recognizes_natBE field 2

theorem recognizes_uint64 (field : String) :
    Recognizes (uint64 field) fun n bs => bs = Writer.uint64 n := by
  refine ((recognizes_bytes field 8).map fun bs => UInt64.ofNat (Bytes.toNatBE bs)).congr
    fun n bs => ?_
  constructor
  · rintro ⟨_, ⟨hlength, rfl⟩, rfl⟩
    have hlt := Bytes.toNatBE_lt bs
    rw [hlength] at hlt
    rw [Writer.uint64, UInt64.toNat_ofNat_of_lt' hlt, ← hlength, Bytes.ofNatBE_toNatBE]
  · rintro rfl
    refine ⟨_, ⟨Bytes.length_ofNatBE 8 _, rfl⟩, ?_⟩
    rw [Bytes.toNatBE_ofNatBE_of_lt n.toNat_lt, UInt64.ofNat_toNat]

/-- The strings of a list: one string for each entry, one after the other. -/
def Strings (S : α → Bytes → Prop) (as : List α) (bs : Bytes) : Prop :=
  ∃ pieces, List.Forall₂ S as pieces ∧ bs = pieces.flatten

/-- Reading repeatedly takes the strings one after the other. -/
theorem recognizes_repeated (h : Recognizes read S) (count : ℕ) :
    Recognizes (repeated read count) fun as bs => as.length = count ∧ Strings S as bs := by
  induction count with
  | zero =>
    refine (recognizes_pure []).congr fun as bs => ?_
    constructor
    · rintro ⟨rfl, rfl⟩
      exact ⟨rfl, [], .nil, rfl⟩
    · rintro ⟨hlength, pieces, hpieces, rfl⟩
      obtain rfl := List.eq_nil_of_length_eq_zero hlength
      obtain rfl := List.forall₂_nil_left_iff.mp hpieces
      exact ⟨rfl, rfl⟩
  | succ count ih =>
    refine (h.andThen fun a => ih.andThen fun as => recognizes_pure (a :: as)).congr
      fun as bs => ?_
    constructor
    · rintro ⟨a, front, _, ha, ⟨as', _, _, ⟨rfl, pieces, hpieces, rfl⟩, ⟨rfl, rfl⟩, rfl⟩, rfl⟩
      refine ⟨rfl, front :: pieces, .cons ha hpieces, ?_⟩
      rw [List.append_nil, List.flatten_cons]
    · rintro ⟨hlength, pieces, hpieces, rfl⟩
      obtain ⟨a, as', rfl⟩ := List.exists_cons_of_length_eq_add_one hlength
      cases hpieces with
      | cons ha hpieces =>
        refine ⟨a, _, _, ha, ⟨as', _, _, ⟨Nat.succ.inj hlength, _, hpieces, rfl⟩, ⟨rfl, rfl⟩,
          (List.append_nil _).symm⟩, List.flatten_cons⟩

/-- Where every entry has one spelling, so has the list. -/
theorem strings_eq_iff {write : α → Bytes} {as : List α} {bs : Bytes} :
    Strings (fun a bs => bs = write a) as bs ↔ bs = as.flatMap write := by
  simp only [Strings, forall₂_eq_map_iff, exists_eq_left, List.flatMap_def]

/-- The entries may be spelled by way of something else. -/
theorem strings_exists_iff {R : α → β → Prop} {write : β → Bytes} {as : List α} {bs : Bytes} :
    Strings (fun a bs => ∃ b, R a b ∧ bs = write b) as bs ↔
      ∃ items, List.Forall₂ R as items ∧ bs = items.flatMap write := by
  simp only [Strings, forall₂_exists_map_iff, List.flatMap_def]
  constructor
  · rintro ⟨_, ⟨items, hitems, rfl⟩, rfl⟩
    exact ⟨items, hitems, rfl⟩
  · rintro ⟨items, hitems, rfl⟩
    exact ⟨_, ⟨items, hitems, rfl⟩, rfl⟩

/-! ## Points and scalars -/

section Suite

variable {P : Type} [Suite P] [LawfulEncoding P]

@[simp] theorem length_points (ps : List P) :
    (Writer.points ps).length = ps.length * pointLength := by
  induction ps with
  | nil => exact (Nat.zero_mul _).symm
  | cons p ps ih =>
    rw [List.length_cons, Nat.succ_mul, ← ih, Nat.add_comm, ← LawfulEncoding.length_encode p,
      ← List.length_append]
    rfl

/-- A string is read as a point exactly if it is the encoding of this point. -/
theorem readPoint_eq_ok_iff {bs : Bytes} {p : P} :
    readPoint bs = .ok p ↔ bs = Suite.encode p := by
  unfold readPoint
  constructor
  · intro h
    split at h
    · split at h
      · next hdecode =>
        cases h
        exact (LawfulEncoding.encode_of_decode hdecode).symm
      · cases h
    · cases h
  · rintro rfl
    rw [if_pos (LawfulEncoding.length_encode p), LawfulEncoding.decode_encode]

/-- Every point has one string and is read from it. -/
theorem recognizes_point (field : String) :
    Recognizes (point field) fun (p : P) bs => bs = Suite.encode p := by
  refine ((recognizes_bytes field pointLength).andThen fun bs =>
    recognizes_within field (readPoint bs)).congr fun p bs => ?_
  simp only [readPoint_eq_ok_iff]
  constructor
  · rintro ⟨_, _, _, ⟨-, rfl⟩, ⟨rfl, rfl⟩, rfl⟩
    exact List.append_nil _
  · rintro rfl
    exact ⟨_, _, _, ⟨LawfulEncoding.length_encode p, rfl⟩, ⟨rfl, rfl⟩, (List.append_nil _).symm⟩

/-- Points are written one after the other, without their number. -/
theorem recognizes_points (field : String) (count : ℕ) :
    Recognizes (points field count) fun (ps : List P) bs =>
      ps.length = count ∧ bs = Writer.points ps :=
  (recognizes_repeated (recognizes_point field) count).congr fun _ _ =>
    and_congr_right fun _ => strings_eq_iff

end Suite

/-- A string is read as a scalar exactly if it is the encoding of this scalar, which is reduced. -/
theorem ofBytes_eq_ok_iff {bs : Bytes} {x : Scalar} : Scalar.ofBytes bs = .ok x ↔ bs = x.toBytes :=
  ⟨fun h => (Scalar.toBytes_of_ofBytes h).symm, fun h => h ▸ Scalar.ofBytes_toBytes x⟩

/-- Every scalar has one string and is read from it. -/
theorem recognizes_scalar (field : String) :
    Recognizes (scalar field) fun x bs => bs = x.toBytes := by
  refine ((recognizes_bytes field Scalar.byteLength).andThen fun bs =>
    recognizes_within field (Scalar.ofBytes bs)).congr fun x bs => ?_
  simp only [ofBytes_eq_ok_iff]
  constructor
  · rintro ⟨_, _, _, ⟨-, rfl⟩, ⟨rfl, rfl⟩, rfl⟩
    exact List.append_nil _
  · rintro rfl
    exact ⟨_, _, _, ⟨Scalar.length_toBytes x, rfl⟩, ⟨rfl, rfl⟩, (List.append_nil _).symm⟩

@[simp] theorem length_scalars (xs : List Scalar) :
    (Writer.scalars xs).length = xs.length * Scalar.byteLength := by
  induction xs with
  | nil => exact (Nat.zero_mul _).symm
  | cons x xs ih =>
    rw [List.length_cons, Nat.succ_mul, ← ih, Nat.add_comm, ← Scalar.length_toBytes x,
      ← List.length_append]
    rfl

/-- Scalars are written one after the other, without their number. -/
theorem recognizes_scalars (field : String) (count : ℕ) :
    Recognizes (scalars field count) fun xs bs => xs.length = count ∧ bs = Writer.scalars xs :=
  (recognizes_repeated (recognizes_scalar field) count).congr fun _ _ =>
    and_congr_right fun _ => strings_eq_iff

end Reader

end ConfidentialPayment
