import Mathlib.Logic.Function.Basic
import ConfidentialPayment.Suite

/-!
# ConfidentialPayment.Proofs.Suite.Order

The order of points.

Byte strings are compared byte by byte, as `List.compareLex` does it, and points by their encodings.
This is a total order up to equal encodings. If no two points share one, then nothing but a point
itself compares as equal to it.
-/

namespace ConfidentialPayment

open Std

/-- Strings are compared from left to right, a beginning before what it begins. -/
theorem Bytes.compare_eq_compareLex (as bs : Bytes) :
    Bytes.compare as bs = List.compareLex Ord.compare as bs := by
  induction as generalizing bs with
  | nil => cases bs <;> rfl
  | cons a as ih =>
    cases bs with
    | nil => rfl
    | cons b bs =>
      have hbyte : Ord.compare a b = compareOfLessAndEq a b := rfl
      rw [Bytes.compare, List.compareLex_cons_cons, ih, hbyte, compareOfLessAndEq]
      by_cases hlt : a < b
      · rw [if_pos hlt, if_pos hlt]
        rfl
      rw [if_neg hlt, if_neg hlt]
      by_cases hgt : b < a
      · rw [if_pos hgt, if_neg (UInt8.ne_of_lt hgt).symm]
        rfl
      · rw [if_neg hgt, if_pos (UInt8.le_antisymm (UInt8.not_lt.mp hgt) (UInt8.not_lt.mp hlt))]
        rfl

variable {P : Type} [Suite P]

/-- Points are compared by their encodings. -/
theorem comparePoints_eq_compareLex (a b : P) :
    comparePoints a b = List.compareLex Ord.compare (Suite.encode a) (Suite.encode b) :=
  Bytes.compare_eq_compareLex _ _

instance : TransCmp (comparePoints : P → P → Ordering) where
  eq_swap := by
    simp only [comparePoints_eq_compareLex]
    exact OrientedCmp.eq_swap
  isLE_trans := by
    simp only [comparePoints_eq_compareLex]
    exact TransCmp.isLE_trans

/-- Of two points one comes first. -/
theorem comparePoints_total (a b : P) :
    ((comparePoints a b).isLE || (comparePoints b a).isLE) = true := by
  have hswap : comparePoints b a = (comparePoints a b).swap := OrientedCmp.eq_swap
  rw [hswap]
  cases comparePoints a b <;> rfl

/-- Only a point itself is neither before nor after it. -/
theorem comparePoints_eq_iff (hencode : Function.Injective (Suite.encode : P → Bytes)) {a b : P} :
    comparePoints a b = .eq ↔ a = b := by
  rw [comparePoints_eq_compareLex, LawfulEqCmp.compare_eq_iff_eq, hencode.eq_iff]

end ConfidentialPayment
