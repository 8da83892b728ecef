import ConfidentialPayment.Machine.Reader
import ConfidentialPayment.Proofs.Machine.Arithmetic
import ConfidentialPayment.Proofs.Wire.Reader

/-!
# ConfidentialPayment.Proofs.Machine.Reader

Reading from a byte string in memory cannot fault.

1. A cursor is valid if it does not point behind its string. `Follows read spec` says of every valid
   cursor that a reader on the machine ends as one on cursors without bounds does: with the same
   result and a valid cursor at the same place, or with the same refusal.
2. Every reader of parts follows its counterpart, and putting readers together keeps that, so no
   reader moves a cursor behind the end or faults (`Follows.decode_eq`).
-/

namespace ConfidentialPayment

/-! ## Cursors -/

/-- The same place as a cursor without bounds. -/
def SliceCursor.view (cursor : SliceCursor) : Cursor :=
  ⟨cursor.offset, cursor.bytes.drop cursor.offset⟩

/-- The place is in the string, and the string is in memory. -/
structure SliceCursor.IsValid (cursor : SliceCursor) : Prop where
  offset_le : cursor.offset ≤ cursor.bytes.length
  length_lt : cursor.bytes.length < UInt64.size

theorem SliceCursor.length_rest_view (cursor : SliceCursor) :
    cursor.view.rest.length = cursor.bytes.length - cursor.offset := List.length_drop ..

namespace SliceReader

variable {α β : Type}

/-- Two runs end in the same way. -/
inductive SameEnd : Except Error (α × Cursor) → Machine (α × SliceCursor) → Prop
  | ok (a : α) {cursor : SliceCursor} (h : cursor.IsValid) :
    SameEnd (.ok (a, cursor.view)) (.ok (a, cursor))
  | refused (cause : Error) : SameEnd (.error cause) (.error (.refused cause))

/-- From every valid cursor the reader ends as its counterpart does. -/
def Follows (read : SliceReader α) (spec : Reader α) : Prop :=
  ∀ cursor : SliceCursor, cursor.IsValid → SameEnd (spec.run cursor.view) (read.run cursor)

/-- The reader can have this result. -/
def Reads (spec : Reader α) (a : α) : Prop := ∃ cursor cursor', spec.run cursor = .ok (a, cursor')

/-- A result that a reader can have has a string from which it is read. -/
theorem Reads.exists_of_recognizes {spec : Reader α} {S : α → Bytes → Prop} {a : α}
    (h : Reads spec a) (hspec : Reader.Recognizes spec S) : ∃ bs, S a bs := by
  obtain ⟨cursor, cursor', hread⟩ := h
  obtain ⟨bs, hbs, -⟩ := (hspec _ _ _).mp hread
  exact ⟨bs, hbs⟩

variable {read : SliceReader α} {spec : Reader α} {next : α → SliceReader β}
  {specNext : α → Reader β}

/-- The results of a sequence are results of its parts. -/
theorem forall_reads_bind {Q : β → Prop}
    (h : ∀ a, Reads spec a → ∀ b, Reads (specNext a) b → Q b) :
    ∀ b, Reads (spec >>= specNext) b → Q b := by
  rintro b ⟨cursor, cursor', hread⟩
  obtain ⟨a, middle, hfirst, hsecond⟩ := Reader.bind_run_eq_ok.mp hread
  exact h a ⟨_, _, hfirst⟩ b ⟨_, _, hsecond⟩

theorem reads_pure_iff {a b : α} : Reads (pure a) b ↔ b = a := by
  constructor
  · rintro ⟨cursor, cursor', hread⟩
    exact (Prod.mk.inj (Except.ok.inj hread)).1.symm
  · rintro rfl
    exact ⟨⟨0, []⟩, _, rfl⟩

/-- Reading repeatedly gives as many results as asked for. -/
theorem length_of_reads_repeated {count : ℕ} :
    ∀ as, Reads (Reader.repeated spec count) as → as.length = count := by
  induction count with
  | zero =>
    intro as h
    rw [reads_pure_iff.mp h, List.length_nil]
  | succ count ih =>
    refine forall_reads_bind fun a _ => forall_reads_bind fun as has bs hbs => ?_
    rw [reads_pure_iff.mp hbs, List.length_cons, ih as has]

/-! ## Single steps -/

theorem run_get_bind {next : SliceCursor → SliceReader β} {cursor : SliceCursor} :
    (get >>= next).run cursor = (next cursor).run cursor := rfl

theorem run_lift_bind {step : Machine α} {cursor : SliceCursor} :
    (lift step >>= next).run cursor = step >>= fun a => (next a).run cursor := by
  cases step with
  | error stop => rfl
  | ok a => rfl

/-! ## Putting readers together -/

theorem follows_pure (a : α) : Follows (pure a) (pure a) := fun _ h => .ok a h

theorem follows_fail (cause : Error) :
    Follows (fail cause : SliceReader α) (Reader.fail cause) := fun _ _ => .refused cause

/-- The second reader need only follow for results of the first. -/
theorem Follows.bind (h : Follows read spec)
    (hnext : ∀ a, Reads spec a → Follows (next a) (specNext a)) :
    Follows (read >>= next) (spec >>= specNext) := by
  intro cursor hcursor
  rw [StateT.run_bind, StateT.run_bind]
  have hfirst := h cursor hcursor
  generalize hread : spec.run cursor.view = result at hfirst ⊢
  generalize read.run cursor = result' at hfirst ⊢
  cases hfirst with
  | ok a hvalid => exact hnext a ⟨_, _, hread⟩ _ hvalid
  | refused cause => exact .refused cause

/-- Sequences of counterparts are counterparts. -/
theorem Follows.andThen (h : Follows read spec) (hnext : ∀ a, Follows (next a) (specNext a)) :
    Follows (read >>= next) (spec >>= specNext) := h.bind fun a _ => hnext a

/-- Changing both results in the same way keeps counterparts. -/
theorem Follows.map (h : Follows read spec) (f : α → β) : Follows (f <$> read) (f <$> spec) := by
  rw [← bind_pure_comp, ← bind_pure_comp]
  exact h.andThen fun a => follows_pure (f a)

/-- Choosing both in the same way keeps counterparts. -/
theorem Follows.ite {c : Prop} [Decidable c] {read' : SliceReader α} {spec' : Reader α}
    (h : Follows read spec) (h' : Follows read' spec') :
    Follows (if c then read else read') (if c then spec else spec') := by
  by_cases hc : c
  · rwa [if_pos hc, if_pos hc]
  · rwa [if_neg hc, if_neg hc]

/-- A step of the machine that does not fault needs no counterpart. -/
theorem Follows.lift_bind {γ : Type} {step : Machine γ} {c : γ} (hstep : step = .ok c)
    {next : γ → SliceReader β} {spec : Reader β} (h : Follows (next c) spec) :
    Follows (lift step >>= next) spec := by
  subst hstep
  exact h

/-- What is computed from the bytes is refused in the name of the field. -/
theorem follows_within (field : String) (x : Except Error α) :
    Follows (within field (Machine.ofExcept x)) (Reader.within field x) := by
  cases x with
  | error cause => exact fun _ _ => .refused _
  | ok a => exact fun _ h => .ok a h

/-! ## Parts -/

/-- As long as the cursor is valid, what remains is no negative number. -/
theorem remaining_run {cursor : SliceCursor} (h : cursor.IsValid) :
    remaining.run cursor = .ok (cursor.bytes.length - cursor.offset, cursor) := by
  rw [remaining, run_get_bind, Machine.sub_eq h.offset_le]
  rfl

theorem follows_remaining : Follows remaining Reader.remaining := by
  intro cursor h
  have hspec : Reader.remaining.run cursor.view =
      .ok (cursor.view.rest.length, cursor.view) := rfl
  rw [remaining_run h, hspec, cursor.length_rest_view]
  exact .ok _ h

/-- If fewer bytes are left than asked for, the refusal says how many of each. -/
theorem bytes_run_of_lt {cursor : SliceCursor} (h : cursor.IsValid) (field : String) {count : ℕ}
    (hcount : cursor.bytes.length - cursor.offset < count) :
    (bytes field count).run cursor =
      Machine.refuse (.missingBytes field count (cursor.bytes.length - cursor.offset)) := by
  rw [bytes, StateT.run_bind, remaining_run h, Machine.ok_bind, if_pos hcount]
  rfl

/-- The guard keeps the cut in the string, and the place behind it is a word since the string is in
memory. -/
theorem bytes_run {cursor : SliceCursor} (h : cursor.IsValid) (field : String) {count : ℕ}
    (hcount : cursor.offset + count ≤ cursor.bytes.length) :
    (bytes field count).run cursor =
      .ok ((cursor.bytes.drop cursor.offset).take count,
        ⟨cursor.bytes, cursor.offset + count⟩) := by
  rw [bytes, StateT.run_bind, remaining_run h, Machine.ok_bind, if_neg (by omega), run_get_bind,
    run_lift_bind, Machine.add_eq (Nat.lt_of_le_of_lt hcount h.length_lt), Machine.ok_bind,
    run_lift_bind, Machine.slice_eq (Nat.le_add_right ..) hcount, Machine.ok_bind, List.drop_take,
    Nat.add_sub_cancel_left]
  rfl

/-- The slice of the machine is what the cursor takes from the list; its bounds are checked
first. -/
theorem follows_bytes (field : String) (count : ℕ) :
    Follows (bytes field count) (Reader.bytes field count) := by
  intro cursor h
  have hspec : (Reader.bytes field count).run cursor.view =
      if (cursor.view.rest.take count).length = count then
        .ok (cursor.view.rest.take count, ⟨cursor.offset + count, cursor.view.rest.drop count⟩)
      else .error (.missingBytes field count cursor.view.rest.length) := rfl
  have hle := h.offset_le
  rw [hspec, List.length_take, cursor.length_rest_view]
  by_cases hcount : cursor.bytes.length - cursor.offset < count
  · rw [if_neg (by omega), bytes_run_of_lt h field hcount]
    exact .refused _
  · have hstop : cursor.offset + count ≤ cursor.bytes.length := by omega
    have hdrop : cursor.view.rest.drop count = cursor.bytes.drop (cursor.offset + count) :=
      List.drop_drop ..
    have hvalid : SliceCursor.IsValid ⟨cursor.bytes, cursor.offset + count⟩ :=
      ⟨hstop, h.length_lt⟩
    rw [if_pos (by omega), bytes_run h field hstop, hdrop]
    exact .ok _ hvalid

/-- Strings of a known length have the entries up to it. -/
theorem follows_natBE (field : String) (width : ℕ) {entries : Bytes → SliceReader ℕ}
    (hentries : ∀ bs : Bytes, bs.length = width → entries bs = pure (Bytes.toNatBE bs)) :
    Follows (bytes field width >>= entries) (Bytes.toNatBE <$> Reader.bytes field width) := by
  rw [← bind_pure_comp]
  refine (follows_bytes field width).bind fun bs hread => ?_
  obtain ⟨_, hlength, -⟩ := hread.exists_of_recognizes (Reader.recognizes_bytes field width)
  rw [hentries bs hlength]
  exact follows_pure _

/-- A byte is read as a number without a fault. -/
theorem follows_nat8 (field : String) : Follows (nat8 field) (Reader.nat8 field) :=
  follows_natBE field 1 fun bs hlength => by
    obtain ⟨byte, rfl⟩ := List.length_eq_one_iff.mp hlength
    simp [Bytes.toNatBE, Bytes.toNatLE]
    rfl

/-- Two bytes are read as a number without a fault. -/
theorem follows_nat16 (field : String) : Follows (nat16 field) (Reader.nat16 field) :=
  follows_natBE field 2 fun bs hlength => by
    obtain ⟨high, low, rfl⟩ := List.length_eq_two.mp hlength
    rfl

/-- Eight bytes are read as a word without a fault. -/
theorem follows_uint64 (field : String) : Follows (uint64 field) (Reader.uint64 field) := by
  change Follows _ ((fun bs => UInt64.ofNat (Bytes.toNatBE bs)) <$> Reader.bytes field 8)
  rw [← bind_pure_comp]
  refine (follows_bytes field 8).bind fun bs hread => ?_
  obtain ⟨_, hlength, -⟩ := hread.exists_of_recognizes (Reader.recognizes_bytes field 8)
  exact .lift_bind (if_pos hlength) (follows_pure _)

/-- A point is read without a fault. -/
theorem follows_point {P : Type} [Suite P] (field : String) :
    Follows (point field : SliceReader P) (Reader.point field) :=
  (follows_bytes field _).andThen fun _ => follows_within field _

/-- A scalar is read without a fault. -/
theorem follows_scalar (field : String) : Follows (scalar field) (Reader.scalar field) :=
  (follows_bytes field _).andThen fun _ => follows_within field _

/-- What follows its counterpart once does so any number of times. -/
theorem follows_repeated (h : Follows read spec) (count : ℕ) :
    Follows (repeated read count) (Reader.repeated spec count) := by
  induction count with
  | zero => exact follows_pure []
  | succ count ih => exact h.andThen fun a => ih.andThen fun as => follows_pure (a :: as)

theorem follows_points {P : Type} [Suite P] (field : String) (count : ℕ) :
    Follows (points field count : SliceReader (List P)) (Reader.points field count) :=
  follows_repeated (follows_point field) count

theorem follows_scalars (field : String) (count : ℕ) :
    Follows (scalars field count) (Reader.scalars field count) :=
  follows_repeated (follows_scalar field) count

/-! ## Whole strings -/

/-- A reader that is done accepts the end of the string, and counts what was read otherwise. -/
theorem finish_run {cursor : SliceCursor} (h : cursor.IsValid) :
    finish.run cursor = if cursor.bytes.length - cursor.offset ≠ 0 then
        Machine.refuse (.lengthMismatch cursor.offset cursor.bytes.length)
      else .ok ((), cursor) := by
  rw [finish, StateT.run_bind, remaining_run h, Machine.ok_bind, run_get_bind]
  by_cases hleft : cursor.bytes.length - cursor.offset ≠ 0
  · rw [if_pos hleft, if_pos hleft]
    rfl
  · rw [if_neg hleft, if_neg hleft]
    rfl

theorem follows_finish : Follows finish Reader.finish := by
  intro cursor h
  have hspec : Reader.finish.run cursor.view = (if cursor.view.rest.isEmpty then pure () else
      Reader.fail (.lengthMismatch cursor.offset (cursor.offset + cursor.view.rest.length))).run
        cursor.view := rfl
  have hlength := cursor.length_rest_view
  rw [hspec, finish_run h]
  by_cases hleft : cursor.bytes.length - cursor.offset = 0
  · have hempty : cursor.view.rest.isEmpty = true := by
      rw [List.isEmpty_iff, ← List.length_eq_zero_iff, hlength, hleft]
    rw [if_neg (not_not.mpr hleft), if_pos hempty]
    exact .ok () h
  · have hempty : ¬ cursor.view.rest.isEmpty = true := by
      rwa [List.isEmpty_iff, ← List.length_eq_zero_iff, hlength]
    rw [if_pos hleft, if_neg hempty, hlength, Nat.add_sub_cancel' h.offset_le]
    exact .refused _

/-- On every string in memory a decoder ends with a result or a refusal, as its counterpart does. -/
theorem Follows.decode_eq (h : Follows read spec) {bs : Bytes} (hbs : bs.length < UInt64.size) :
    decode read bs = Machine.ofExcept (Reader.decode spec bs) := by
  have hstart : SliceCursor.IsValid ⟨bs, 0⟩ := ⟨Nat.zero_le _, hbs⟩
  have hall : Follows (read >>= fun a => finish >>= fun _ => pure a)
      (spec >>= fun a => Reader.finish >>= fun _ => pure a) :=
    h.andThen fun a => follows_finish.andThen fun _ => follows_pure a
  have hend := hall ⟨bs, 0⟩ hstart
  have hrun : decode read bs = Prod.fst <$>
      (read >>= fun a => finish >>= fun _ => pure a).run ⟨bs, 0⟩ := by
    simp [decode]
  have hspec : Reader.decode spec bs = Prod.fst <$>
      (spec >>= fun a => Reader.finish >>= fun _ => pure a).run (SliceCursor.view ⟨bs, 0⟩) := by
    simp [Reader.decode, SliceCursor.view]
  rw [hrun, hspec]
  generalize (spec >>= fun a => Reader.finish >>= fun _ => pure a).run _ = result at hend ⊢
  generalize (read >>= fun a => finish >>= fun _ => pure a).run _ = result' at hend ⊢
  cases hend with
  | ok a _ => rfl
  | refused cause => rfl

/-- A decoder of strings of one length has the outcome of its counterpart. -/
theorem Follows.decodeFixed_eq (h : Follows read spec) (length : ℕ) {bs : Bytes}
    (hbs : bs.length < UInt64.size) :
    decodeFixed length read bs = Machine.ofExcept (Reader.decodeFixed length spec bs) := by
  unfold decodeFixed Reader.decodeFixed
  by_cases hlength : bs.length = length
  · rw [if_pos hlength, if_pos hlength, h.decode_eq hbs]
  · rw [if_neg hlength, if_neg hlength, Machine.ofExcept_error]

end SliceReader

end ConfidentialPayment
