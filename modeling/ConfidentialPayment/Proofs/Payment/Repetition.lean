import ConfidentialPayment.Proofs.Payment.Verification
import ConfidentialPayment.Proofs.Suite.Ideal
import ConfidentialPayment.Proofs.Suite.Order

/-!
# ConfidentialPayment.Proofs.Payment.Repetition

Serial numbers that repeat are found.

The serial numbers of a payment are sorted by their encodings, and neighbours are compared. If no
two points share an encoding, the order is total and only a point itself compares as equal to it
(`Proofs.Suite.Order`). So equal points are neighbours in the sorted list, wherever they stood
before (`repeatsSerialNumber_exact`).
-/

namespace ConfidentialPayment.Payment

variable {P : Type} [Suite P]

/-- In a list that is sorted, what repeats has an equal neighbour. -/
theorem hasEqualNeighbours_eq_false_iff {α : Type} [DecidableEq α] {r : α → α → Prop}
    (hantisymm : ∀ a b, r a b → r b a → a = b) {as : List α} (hsorted : as.Pairwise r) :
    hasEqualNeighbours as = false ↔ as.Nodup := by
  refine ⟨fun h => ?_, hasEqualNeighbours_eq_false⟩
  induction hsorted with
  | nil => exact List.nodup_nil
  | @cons a as hfirst hsorted ih =>
    cases hsorted with
    | nil => exact List.nodup_singleton a
    | @cons b as hsecond =>
      rw [hasEqualNeighbours, Bool.or_eq_false_iff, decide_eq_false_iff_not] at h
      refine List.nodup_cons.mpr ⟨fun hmem => ?_, ih h.2⟩
      -- an equal entry further on would stand on both sides of `b`
      rcases List.mem_cons.mp hmem with hab | hmem
      · exact h.1 hab
      · exact h.1 (hantisymm a b (hfirst b (List.mem_cons_self ..)) (hsecond a hmem))

/-- The check passes exactly if all serial numbers are different. -/
theorem repeatsSerialNumber_eq_false_iff
    (hencode : Function.Injective (Suite.encode : P → Bytes)) {coins : List (Coin P)} :
    repeatsSerialNumber coins = false ↔ (coins.map Coin.serialNumber).Nodup := by
  have hsorted := List.pairwise_mergeSort (fun _ _ _ : P => Std.TransCmp.isLE_trans)
    comparePoints_total (coins.map Coin.serialNumber)
  rw [repeatsSerialNumber, hasEqualNeighbours_eq_false_iff ?_ hsorted]
  · exact (List.mergeSort_perm ..).nodup_iff
  · intro a b hab hba
    exact (comparePoints_eq_iff hencode).mp (Std.OrientedCmp.isLE_antisymm hab hba)

/-- What repeats in a list stands at two different positions. -/
theorem not_nodup_map_iff {α β : Type} {f : α → β} {as : List α} :
    ¬ (as.map f).Nodup ↔ ∃ i j : Fin as.length, i ≠ j ∧ f as[i] = f as[j] := by
  rw [List.Nodup, List.pairwise_map, List.pairwise_iff_getElem]
  constructor
  · intro h
    push Not at h
    obtain ⟨i, j, hi, hj, hlt, hsame⟩ := h
    exact ⟨⟨i, hi⟩, ⟨j, hj⟩, Fin.ne_of_lt hlt, hsame⟩
  · rintro ⟨i, j, hne, hsame⟩ h
    rcases Nat.lt_or_gt_of_ne (Fin.val_ne_of_ne hne) with hlt | hgt
    · exact h i j i.isLt j.isLt hlt hsame
    · exact h j i j.isLt i.isLt hgt hsame.symm

/-- Points are in a total order, in which only a point itself is equal to it, and a serial number is
found to repeat exactly if coins at two different positions have it. -/
theorem repeatsSerialNumber_exact (hencode : Function.Injective (Suite.encode : P → Bytes)) :
    (∀ a b : P, comparePoints b a = (comparePoints a b).swap) ∧
    (∀ a b c : P, (comparePoints a b).isLE → (comparePoints b c).isLE →
      (comparePoints a c).isLE) ∧
    (∀ a b : P, comparePoints a b = .eq ↔ a = b) ∧
    ∀ coins : List (Coin P), repeatsSerialNumber coins = true ↔
      ∃ i j : Fin coins.length, i ≠ j ∧ coins[i].serialNumber = coins[j].serialNumber := by
  refine ⟨fun a b => Std.OrientedCmp.eq_swap, fun a b c => Std.TransCmp.isLE_trans,
    fun a b => comparePoints_eq_iff hencode, fun coins => ?_⟩
  rw [← Bool.not_eq_false, repeatsSerialNumber_eq_false_iff hencode, not_nodup_map_iff]

/-- The first and the last of three coins have the same serial number. -/
theorem repeatsSerialNumber_exact_ends :
    let coin (serialNumber : Opening) : Coin Opening := { Coin.blank with serialNumber }
    let gens := Generators.ideal
    repeatsSerialNumber [coin gens.value, coin gens.shard, coin gens.value] = true ∧
      repeatsSerialNumber [coin gens.value, coin gens.shard, coin gens.blinding] = false := by
  intro coin gens
  obtain ⟨-, -, -, hrepeats⟩ := repeatsSerialNumber_exact Suite.encode_injective_ideal
  constructor
  · exact (hrepeats _).mpr ⟨(0 : Fin 3), (2 : Fin 3), by decide, rfl⟩
  · rw [← Bool.not_eq_true, hrepeats]
    decide

end ConfidentialPayment.Payment
