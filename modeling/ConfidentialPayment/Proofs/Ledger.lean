import Mathlib.Data.List.Basic
import Std.Data.HashMap.Lemmas
import ConfidentialPayment.Ledger.Indexed

/-!
# ConfidentialPayment.Proofs.Ledger

Ledgers only grow.

1. `after.Extends before` says of two ledgers that `after` answers every lookup that `before`
   answers, and in the same way. One appended commitment gives an extension (`extends_push`), and
   so does any list of them (`extends_append`).
2. What a `Ledger.Indexed` keeps for its encodings are first positions (`isIndexed_ofList`), so it
   answers as the `Ledger` of the same commitments does (`view_ofList`).
-/

namespace ConfidentialPayment.Ledger

variable {P : Type}

/-! ## Views -/

/-- Every lookup that succeeds in one view gives the same in another one. -/
structure View.Extends (after before : View P) : Prop where
  commitmentAt : ∀ {index commitment}, before.commitmentAt index = some commitment →
    after.commitmentAt index = some commitment
  contains : ∀ {commitment}, before.contains commitment = true → after.contains commitment = true

namespace Indexed

/-! ## Growth -/

variable [Suite P] {ledger before after : Indexed P} {commitment : P}

@[simp] theorem append_nil : ledger.append [] = ledger := rfl

@[simp] theorem append_cons {commitments : List P} :
    ledger.append (commitment :: commitments) = (ledger.push commitment).2.append commitments := rfl

/-- Every commitment of one ledger has its number and its first number in another one. -/
structure Extends (after before : Indexed P) : Prop where
  get? : ∀ {index commitment}, before.get? index = some commitment →
    after.get? index = some commitment
  indexOf? : ∀ {index commitment}, before.indexOf? commitment = some index →
    after.indexOf? commitment = some index

theorem Extends.refl : ledger.Extends ledger := ⟨id, id⟩

theorem Extends.trans {middle : Indexed P} (h : after.Extends middle) (h' : middle.Extends before) :
    after.Extends before :=
  ⟨fun hget => h.get? (h'.get? hget), fun hindex => h.indexOf? (h'.indexOf? hindex)⟩

/-- A commitment is on the ledger exactly if it has a number. -/
theorem contains_iff : ledger.contains commitment = true ↔
    ∃ index, ledger.indexOf? commitment = some index := by
  rw [contains, Std.HashMap.contains_eq_isSome_getElem?, indexOf?, Option.isSome_iff_exists]

/-- The number of the new commitment is one that was not given before, and its encoding is entered
only if it is new. -/
theorem extends_push : (ledger.push commitment).2.Extends ledger where
  get? {index other} hget := by
    have hlt : index < ledger.commitments.size := (Array.getElem?_eq_some_iff.mp hget).1
    have hne : index ≠ ledger.commitments.size := Nat.ne_of_lt hlt
    change (ledger.commitments.push commitment)[index]? = some other
    rw [Array.getElem?_push, if_neg hne]
    exact hget
  indexOf? {index other} hindex := by
    have hmem : Suite.encode other ∈ ledger.firstNumbers :=
      Std.HashMap.mem_iff_isSome_getElem?.mpr (Option.isSome_iff_exists.mpr ⟨index, hindex⟩)
    change (ledger.firstNumbers.insertIfNew (Suite.encode commitment) ledger.size)[
      Suite.encode other]? = some index
    rw [Std.HashMap.getElem?_insertIfNew, if_neg]
    · exact hindex
    · rintro ⟨hsame, hnew⟩
      rw [eq_of_beq hsame] at hnew
      exact hnew hmem

/-- Appending commitments changes no lookup that succeeded. -/
theorem extends_append {commitments : List P} : (ledger.append commitments).Extends ledger := by
  induction commitments generalizing ledger with
  | nil => exact .refl
  | cons commitment commitments ih => exact ih.trans extends_push

/-- Views grow with their ledgers. -/
theorem Extends.view (h : after.Extends before) : after.view.Extends before.view where
  commitmentAt := h.get?
  contains hcontains :=
    have ⟨index, hindex⟩ := contains_iff.mp hcontains
    contains_iff.mpr ⟨index, h.indexOf? hindex⟩

/-! ## First numbers -/

/-- The number that is kept for an encoding is the position of the first commitment that has it. -/
def IsIndexed (ledger : Indexed P) : Prop :=
  ∀ bs, ledger.firstNumbers[bs]? =
    ledger.commitments.toList.findIdx? fun commitment => Suite.encode commitment = bs

theorem isIndexed_empty : (empty : Indexed P).IsIndexed := fun _ => Std.HashMap.getElem?_empty

/-- The index stays right when a commitment is appended. -/
theorem IsIndexed.push (h : ledger.IsIndexed) (commitment : P) :
    (ledger.push commitment).2.IsIndexed := by
  intro bs
  change (ledger.firstNumbers.insertIfNew (Suite.encode commitment) ledger.size)[bs]? =
    (ledger.commitments.push commitment).toList.findIdx? _
  rw [Std.HashMap.getElem?_insertIfNew, Array.toList_push, List.findIdx?_append, ← h bs]
  by_cases hsame : Suite.encode commitment = bs
  · cases hfirst : ledger.firstNumbers[bs]? with
    | some index =>
      have hmem : Suite.encode commitment ∈ ledger.firstNumbers :=
        Std.HashMap.mem_iff_isSome_getElem?.mpr (by rw [hsame, hfirst]; rfl)
      rw [if_neg fun hnew => hnew.2 hmem, Option.some_or]
    | none =>
      have hmem : Suite.encode commitment ∉ ledger.firstNumbers := by
        rw [Std.HashMap.mem_iff_isSome_getElem?, hsame, hfirst]
        simp
      rw [if_pos ⟨beq_iff_eq.mpr hsame, hmem⟩, Option.none_or, List.findIdx?_cons,
        if_pos (decide_eq_true hsame)]
      simp [size]
  · rw [if_neg fun hnew => hsame (eq_of_beq hnew.1), List.findIdx?_cons,
      if_neg (by simpa using hsame)]
    simp

/-- The index stays right when many commitments are appended. -/
theorem IsIndexed.append (h : ledger.IsIndexed) (commitments : List P) :
    (ledger.append commitments).IsIndexed := by
  induction commitments generalizing ledger with
  | nil => exact h
  | cons commitment commitments ih => exact ih (h.push commitment)

/-- The index of a ledger that was built by appending is right. -/
theorem isIndexed_ofList (commitments : List P) : (ofList commitments).IsIndexed :=
  isIndexed_empty.append commitments

/-! ## The same answers -/

/-- What is appended comes after what was there. -/
theorem toList_append {commitments : List P} :
    (ledger.append commitments).commitments.toList = ledger.commitments.toList ++ commitments := by
  induction commitments generalizing ledger with
  | nil => exact (List.append_nil _).symm
  | cons commitment commitments ih =>
    rw [append_cons, ih]
    change (ledger.commitments.push commitment).toList ++ commitments = _
    rw [Array.toList_push, List.append_assoc, List.singleton_append]

/-- A ledger contains what was appended to the empty one. -/
theorem toList_ofList (commitments : List P) : (ofList commitments).commitments.toList =
    commitments := toList_append

/-- Looking up by the index gives what a search through the list gives. -/
theorem indexOf?_ofList (hencode : Function.Injective (Suite.encode : P → Bytes))
    (commitments : List P) :
    (ofList commitments).indexOf? commitment = (Ledger.ofList commitments).indexOf? commitment := by
  rw [indexOf?, isIndexed_ofList commitments, toList_ofList]
  simp only [hencode.eq_iff]
  rfl

/-- Where different points have different encodings, payments see the same of both ledgers. -/
theorem view_ofList (hencode : Function.Injective (Suite.encode : P → Bytes))
    (commitments : List P) : (ofList commitments).view = (Ledger.ofList commitments).view := by
  have hget (index : UInt64) : (ofList commitments).get? index.toNat =
      (Ledger.ofList commitments).get? index.toNat := by
    rw [get?, Ledger.get?, ← Array.getElem?_toList, toList_ofList, Ledger.ofList,
      List.getElem?_toArray]
  have hcontains (commitment : P) : (ofList commitments).contains commitment =
      (Ledger.ofList commitments).contains commitment := by
    rw [contains, Std.HashMap.contains_eq_isSome_getElem?, Ledger.contains,
      ← indexOf?_ofList hencode, indexOf?]
  exact congrArg₂ View.mk (funext hget) (funext hcontains)

end Indexed

end ConfidentialPayment.Ledger
