import ConfidentialPayment.Machine.Powers
import ConfidentialPayment.Membership.Witness
import ConfidentialPayment.Proofs.Scalar.Vector

/-!
# ConfidentialPayment.Proofs.Machine.Powers

Both ways to powers agree.

1. A pass of the loop over the bits of an exponent keeps the product of the result and of the base
   to the power that is left (`pass_keeps_power`), so the loop ends with the power (`powerLoop_eq`).
2. The other loop appends the geometric sequence from the power at hand (`powersLoop_eq`).
3. So every entry of a list of powers is the power to its place (`power_agrees_with_powers`), and
   the power to the length of a list is the entry that comes next, as a prover of membership relies
   on (`ringOpening_respond`).
-/

namespace ConfidentialPayment.Machine

/-! ## One exponent -/

/-- Shifting a word by one bit halves it. -/
theorem toNat_shiftRight_one (e : UInt64) : (e >>> 1).toNat = e.toNat / 2 :=
  Nat.shiftRight_eq_div_pow e.toNat 1

/-- The last bit of a word says whether it is odd. -/
theorem and_one_eq_one_iff (e : UInt64) : e &&& 1 = 1 ↔ e.toNat % 2 = 1 := by
  rw [← UInt64.toNat_inj, UInt64.toNat_and]
  exact iff_of_eq (congrArg (· = 1) (Nat.and_one_is_mod e.toNat))

/-- What a pass multiplies into the result is what the exponent loses when its last bit is cut off
and the base is squared. -/
theorem pass_keeps_power (result base : Scalar) (e : UInt64) :
    (if e &&& 1 = 1 then result * base else result) * (base * base) ^ (e >>> 1).toNat =
      result * base ^ e.toNat := by
  have hsquare : (base * base) ^ (e >>> 1).toNat = base ^ (2 * (e.toNat / 2)) := by
    rw [toNat_shiftRight_one, ← sq, ← pow_mul]
  rw [hsquare]
  split
  case isTrue hodd =>
    have hodd' : e.toNat % 2 = 1 := (and_one_eq_one_iff e).mp hodd
    rw [mul_assoc, ← pow_succ']
    congr 2
    omega
  case isFalse heven =>
    have heven' : e.toNat % 2 ≠ 1 := (and_one_eq_one_iff e).not.mp heven
    congr 2
    omega

/-- The loop multiplies the result by the base to the power of the exponent. -/
theorem powerLoop_eq (result base : Scalar) (e : UInt64) :
    powerLoop result base e = result * base ^ e.toNat := by
  induction result, base, e using powerLoop.induct with
  | case1 result base e hpos ih =>
    rw [dite_eq_ite] at ih
    rw [powerLoop, if_pos hpos, ih, pass_keeps_power]
  | case2 result base e hzero =>
    have hzero' : e = 0 := UInt64.le_zero_iff.mp (UInt64.not_lt.mp hzero)
    rw [powerLoop, if_neg hzero, hzero', UInt64.toNat_zero, pow_zero, mul_one]

/-- Squaring and multiplying along the bits gives the power. -/
theorem power_eq (x : Scalar) (e : UInt64) : power x e = x ^ e.toNat := by
  rw [power, powerLoop_eq, one_mul]

/-! ## Lists of powers -/

/-- The loop appends the geometric sequence from the power at hand. -/
theorem powersLoop_eq (x : Scalar) (count : ℕ) (before : Array Scalar) (next : Scalar) :
    (powersLoop x count before next).toList = before.toList ++ Scalar.geometric x count next := by
  induction count generalizing before next with
  | zero => rw [powersLoop, Scalar.geometric, List.append_nil]
  | succ count ih =>
    rw [powersLoop, ih, Scalar.geometric, Array.toList_push, List.append_assoc,
      List.singleton_append]

/-- The loop gives the powers in ascending order. -/
theorem toList_powers (x : Scalar) (count : ℕ) : (powers x count).toList = x.powers count :=
  powersLoop_eq x count #[] 1

/-- The entry at a place is the power with this exponent. -/
theorem getElem?_powers (x : Scalar) {count i : ℕ} (hi : i < count) :
    (powers x count)[i]? = some (x ^ i) := by
  have hlist : i < (x.powers count).length := (Scalar.length_powers x count).symm ▸ hi
  rw [← Array.getElem?_toList, toList_powers, List.getElem?_eq_getElem hlist,
    Scalar.getElem_powers]

/-! ## Both together -/

/-- The power to the number of entries of a list is the entry that comes next. -/
theorem toList_powers_succ (x : Scalar) (e : UInt64) :
    (powers x (e.toNat + 1)).toList = (powers x e.toNat).toList ++ [power x e] := by
  rw [toList_powers, toList_powers, power_eq, Scalar.powers_eq_map, Scalar.powers_eq_map,
    List.range_succ, List.map_append, List.map_singleton]

/-- The prover of membership takes the third power of the challenge from the one loop and the powers
below it from the other. Together they are the list that the other loop alone would give. -/
theorem ringOpening_respond {P : Type} (w : Membership.Witness P) (d : Membership.Randomness)
    (x : Scalar) :
    (w.respond d x).ringOpening =
      w.blinding * power x 3 - Scalar.dot d.coefficientBlindings.toList (powers x 3).toList ∧
    (powers x 3).toList ++ [power x 3] = (powers x 4).toList := by
  refine ⟨?_, (toList_powers_succ x 3).symm⟩
  rw [power_eq, toList_powers]
  rfl

/-- A power to an exponent of one word is the power of the field, as it is in the residue classes,
and an empty product for the exponent zero. The list of powers has one entry for each place, the
power to it. Both are the powers of the other modules. -/
theorem power_agrees_with_powers (x : Scalar) :
    (∀ e : UInt64, power x e = x ^ e.toNat ∧
      Scalar.toZMod (power x e) = Scalar.toZMod x ^ e.toNat ∧ power x e = x.power e.toNat) ∧
    power x 0 = 1 ∧
    ∀ n : ℕ, (powers x n).size = n ∧ (powers x n).toList = x.powers n ∧
      ∀ i : UInt64, i.toNat < n → (powers x n)[i.toNat]? = some (power x i) := by
  refine ⟨fun e => ⟨power_eq x e, ?_, power_eq x e⟩, ?_, fun n => ⟨?_, toList_powers x n, ?_⟩⟩
  · rw [power_eq]
    exact Scalar.toZMod_power x e.toNat
  · exact (power_eq x 0).trans (pow_zero x)
  · rw [← Array.length_toList, toList_powers, Scalar.length_powers]
  · intro i hi
    rw [getElem?_powers x hi, power_eq]

/-- The fifth power of three, and the zeroth of zero. -/
theorem power_agrees_with_powers_three :
    (5 : UInt64).toNat < 6 ∧ (powers (.ofNat 3) 6)[5]? = some (power (.ofNat 3) 5) ∧
      power (.ofNat 3) 5 = .ofNat 243 ∧ power 0 0 = 1 ∧ (powers 0 1)[0]? = some 1 := by
  obtain ⟨hpower, -, hentries⟩ := power_agrees_with_powers (.ofNat 3)
  obtain ⟨-, hzero, hzeros⟩ := power_agrees_with_powers 0
  have hfive : (5 : UInt64).toNat < 6 := by decide
  refine ⟨hfive, (hentries 6).2.2 5 hfive, ?_, hzero, ?_⟩
  · exact (hpower 5).1.trans (Nat.cast_pow 3 5).symm
  · exact ((hzeros 1).2.2 0 (by decide)).trans (congrArg some hzero)

end ConfidentialPayment.Machine
