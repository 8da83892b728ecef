import Mathlib.Data.List.Basic
import ConfidentialPayment.RandomSource

/-!
# ConfidentialPayment.Proofs.RandomSource

The bytes and the scalars that a program draws, in their order.

A tape never ends, so a program gets as many bytes as it asks for (`length_bytesAt`).
`tape.scalars count` are the next scalars of a tape. A program that draws structured values several
times draws the scalars that these values are made of one after the other: if one value spells
`width` scalars, then `count` values spell `count * width` of them (`flatMap_listOf`).
-/

namespace ConfidentialPayment.RandomSource

variable {α β : Type}

@[simp] theorem length_bytesAt (tape : RandomSource) (place count : ℕ) :
    (tape.bytesAt place count).length = count := by
  have hspan (first blocks : ℕ) : ((List.range blocks).flatMap
      fun i => (tape.block (first + i)).toList).length = blocks * blockLength := by
    simp [List.length_flatMap]
  rw [bytesAt, List.length_take, List.length_drop, hspan]
  simp only [blockLength]
  omega

/-- The next scalars of a tape. -/
def scalars (tape : RandomSource) (count : ℕ) : List Scalar := ((listOf scalar count).run tape).1

/-- Drawing a list gives as many entries as asked for. -/
theorem length_listOf (draw : Draw α) (count : ℕ) (tape : RandomSource) :
    ((listOf draw count).run tape).1.length = count := by
  induction count generalizing tape with
  | zero => rfl
  | succ count ih => exact congrArg (· + 1) (ih _)

@[simp] theorem length_scalars (tape : RandomSource) (count : ℕ) :
    (tape.scalars count).length = count := length_listOf ..

/-- Drawing `m + n` times is drawing `m` times and then `n` times. -/
theorem listOf_add (draw : Draw α) (m n : ℕ) :
    listOf draw (m + n) = do
      let first ← listOf draw m
      let others ← listOf draw n
      return first ++ others := by
  induction m with
  | zero => simp [listOf]
  | succ m ih => simp [Nat.succ_add, listOf, ih]

/-- Values that spell `width` scalars each, drawn one after the other, spell all of them in
order. -/
theorem flatMap_listOf {draw : Draw α} {spell : α → List β} {entry : Draw β} {width : ℕ}
    (h : spell <$> draw = listOf entry width) (count : ℕ) :
    List.flatMap spell <$> listOf draw count = listOf entry (count * width) := by
  induction count with
  | zero => simp [listOf]
  | succ count ih =>
    rw [Nat.succ_mul, Nat.add_comm (count * width), listOf_add entry, ← h, ← ih]
    simp [listOf]

/-- The scalars that structured values spell are the next ones of the tape. -/
theorem flatMap_run_listOf {draw : Draw α} {spell : α → List Scalar} {width : ℕ}
    (h : spell <$> draw = listOf scalar width) (count : ℕ) (tape : RandomSource) :
    ((listOf draw count).run tape).1.flatMap spell = tape.scalars (count * width) := by
  rw [scalars, ← flatMap_listOf h]
  rfl

end ConfidentialPayment.RandomSource
