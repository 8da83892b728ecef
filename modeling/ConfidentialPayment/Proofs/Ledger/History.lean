import Mathlib.Order.Bounds.Defs
import ConfidentialPayment.Proofs.Ledger
import ConfidentialPayment.Proofs.Suite.Ideal

/-!
# ConfidentialPayment.Proofs.Ledger.History

What a ledger answers after any history.

A history is a list of commitments that are pushed one after the other, any of them as often as one
likes. The list alone says what every push gives and what every lookup answers afterwards
(`pushAll_answers`): the two structures behind a ledger agree, and the numbers that are kept for
encodings are those of the first pushes.
-/

namespace ConfidentialPayment.Ledger.Indexed

variable {P : Type} [Suite P] {ledger : Indexed P} {commitment : P} {pushed : List P}

/-! ## Pushes -/

/-- The program that pushes commitments one after the other; the result has the numbers that they
get. -/
def pushAll (commitments : List P) : StateM (Indexed P) (List Nat) :=
  commitments.mapM fun commitment => modifyGet fun ledger => ledger.push commitment

/-- Appending a commitment adds one to the size, also if it is there already. -/
theorem size_push : (ledger.push commitment).2.size = ledger.size + 1 := Array.size_push _

/-- The first push gets the size of the ledger, and the others go on from there. -/
theorem run_pushAll_cons : (pushAll (commitment :: pushed)).run ledger =
    let (numbers, after) := (pushAll pushed).run (ledger.push commitment).2
    (ledger.size :: numbers, after) := by
  rw [pushAll, List.mapM_cons]
  rfl

/-- The commitments of a list get the next numbers in their order. -/
theorem run_pushAll : (pushAll pushed).run ledger =
    (List.range' ledger.size pushed.length, ledger.append pushed) := by
  induction pushed generalizing ledger with
  | nil => rfl
  | cons commitment pushed ih =>
    rw [run_pushAll_cons, ih, size_push, List.length_cons, List.range'_succ, append_cons]

/-! ## Lookups -/

/-- Numbers count the commitments in the order in which they were appended. -/
theorem get?_ofList (index : ℕ) : (ofList pushed).get? index = pushed[index]? := by
  rw [get?, ← Array.getElem?_toList, toList_ofList]

theorem size_ofList : (ofList pushed).size = pushed.length := by
  rw [size, ← Array.length_toList, toList_ofList]

/-- The number that is found is the least one under which an equal commitment was pushed. -/
theorem indexOf?_ofList_eq_some_iff (hencode : Function.Injective (Suite.encode : P → Bytes))
    {index : ℕ} : (ofList pushed).indexOf? commitment = some index ↔
      IsLeast {i | pushed[i]? = some commitment} index := by
  rw [indexOf?_ofList hencode, Ledger.indexOf?, Ledger.ofList, List.findIdx?_eq_some_iff_getElem]
  constructor
  · rintro ⟨hlt, hhere, hbefore⟩
    refine ⟨List.getElem?_eq_some_iff.mpr ⟨hlt, of_decide_eq_true hhere⟩, fun i hi => ?_⟩
    obtain ⟨_, hsame⟩ := List.getElem?_eq_some_iff.mp hi
    exact Nat.le_of_not_lt fun hless => hbefore i hless (decide_eq_true hsame)
  · rintro ⟨hhere, hleast⟩
    obtain ⟨hlt, hsame⟩ := List.getElem?_eq_some_iff.mp hhere
    refine ⟨hlt, decide_eq_true hsame, fun i hless hi => ?_⟩
    have hearlier : pushed[i]? = some commitment :=
      List.getElem?_eq_some_iff.mpr ⟨Nat.lt_trans hless hlt, of_decide_eq_true hi⟩
    exact Nat.not_le_of_lt hless (hleast hearlier)

/-- Only what was never appended has no number. -/
theorem indexOf?_ofList_eq_none_iff (hencode : Function.Injective (Suite.encode : P → Bytes)) :
    (ofList pushed).indexOf? commitment = none ↔ commitment ∉ pushed := by
  rw [indexOf?_ofList hencode, Ledger.indexOf?, Ledger.ofList, List.findIdx?_eq_none_iff]
  simp only [decide_eq_false_iff_not]
  exact ⟨fun h hmem => h commitment hmem rfl, fun h other hmem hsame => h (hsame ▸ hmem)⟩

/-- A commitment is on the ledger exactly if looking it up succeeds. -/
theorem contains_eq_isSome : ledger.contains commitment = (ledger.indexOf? commitment).isSome :=
  Std.HashMap.contains_eq_isSome_getElem?

/-- After any history every push has given the number of the pushes before it, the commitments are
found by these numbers and by no others, each is found under its first number, and it is contained
exactly if it is found. -/
theorem pushAll_answers (hencode : Function.Injective (Suite.encode : P → Bytes))
    (pushed : List P) :
    ∃ ledger, (pushAll pushed).run empty = (List.range pushed.length, ledger) ∧
      ledger.size = pushed.length ∧
      (∀ index, ledger.view.commitmentAt index = pushed[index.toNat]?) ∧
      ∀ commitment,
        (∀ index, ledger.indexOf? commitment = some index ↔
          IsLeast {i | pushed[i]? = some commitment} index) ∧
        (ledger.indexOf? commitment = none ↔ commitment ∉ pushed) ∧
        ledger.view.contains commitment = (ledger.indexOf? commitment).isSome := by
  refine ⟨ofList pushed, ?_, size_ofList, fun index => get?_ofList _, fun commitment => ?_⟩
  · rw [run_pushAll, List.range_eq_range']
    rfl
  · exact ⟨fun index => indexOf?_ofList_eq_some_iff hencode, indexOf?_ofList_eq_none_iff hencode,
      contains_eq_isSome⟩

/-- A commitment that is pushed twice keeps its first number. -/
theorem pushAll_answers_twice :
    let gens := Generators.ideal
    ∃ ledger, (pushAll [gens.value, gens.shard, gens.value]).run empty = ([0, 1, 2], ledger) ∧
      ledger.indexOf? gens.value = some 0 ∧ ledger.indexOf? gens.shard = some 1 ∧
      ledger.view.commitmentAt 2 = some gens.value ∧ ledger.view.commitmentAt 3 = none ∧
      ledger.view.contains gens.blinding = false := by
  intro gens
  obtain ⟨ledger, hrun, -, hget, hfind⟩ :=
    pushAll_answers Suite.encode_injective_ideal [gens.value, gens.shard, gens.value]
  have hdistinct : gens.value ≠ gens.shard := by decide
  have habsent : gens.blinding ∉ [gens.value, gens.shard, gens.value] := by decide
  refine ⟨ledger, hrun, ((hfind _).1 0).mpr ⟨rfl, fun i _ => Nat.zero_le i⟩,
    ((hfind _).1 1).mpr ⟨rfl, fun i hi => Nat.pos_of_ne_zero ?_⟩, hget 2, hget 3, ?_⟩
  · rintro rfl
    exact hdistinct (Option.some.inj hi)
  · rw [(hfind _).2.2, (hfind _).2.1.mpr habsent, Option.isSome_none]

end ConfidentialPayment.Ledger.Indexed
