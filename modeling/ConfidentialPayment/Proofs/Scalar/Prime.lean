import Mathlib.Data.List.Prime
import Mathlib.NumberTheory.LucasPrimality
import Mathlib.Tactic.NormNum.Prime
import ConfidentialPayment.Scalar

/-!
# ConfidentialPayment.Proofs.Scalar.Prime

The order of the group is a prime number (`prime_order`).

By Lucas's test a number `p` is prime if some number has order `p - 1` modulo `p`, which is seen
from its powers with exponents `p - 1` and `(p - 1) / q` for the prime factors `q` of `p - 1`.
The large factors are certified in the same way first, from the smallest to the largest.
-/

namespace ConfidentialPayment.Scalar

/-! ## Lucas's test -/

/-- `a ^ n % p` by squaring once for each of the `bits` lowest binary digits of `n`. -/
def powMod (p a : ℕ) : (bits : ℕ) → (n : ℕ) → ℕ
  | 0, _ => 1 % p
  | bits + 1, n => powMod p a bits (n / 2) ^ 2 * (if n % 2 = 1 then a else 1) % p

/-- Squaring along the bits and reducing at each of them gives the reduced power. -/
theorem powMod_eq (p a : ℕ) {bits n : ℕ} (h : n < 2 ^ bits) :
    powMod p a bits n = a ^ n % p := by
  induction bits generalizing n with
  | zero =>
    obtain rfl : n = 0 := by simpa using h
    simp [powMod]
  | succ bits ih =>
    have hhalf : n / 2 < 2 ^ bits := by rw [pow_succ] at h; omega
    have hn : a ^ n = (a ^ (n / 2)) ^ 2 * (if n % 2 = 1 then a else 1) := by
      split
      · next hodd =>
        rw [← pow_mul, ← pow_succ]
        congr 1
        omega
      · next heven =>
        rw [← pow_mul, mul_one]
        congr 1
        omega
    rw [powMod, ih hhalf, hn, Nat.mul_mod, ← Nat.pow_mod, ← Nat.mul_mod]

/-- What Lucas's test computes for a witness `a` and the prime factors of `p - 1`, each listed as
often as it divides. The exponents have at most `bits` binary digits. -/
def passesLucas (bits p a : ℕ) (factors : List ℕ) : Bool :=
  1 < p && p ≤ 2 ^ bits && factors.prod = p - 1 && powMod p a bits (p - 1) = 1 &&
    factors.all fun q => powMod p a bits ((p - 1) / q) ≠ 1

/-- A power is one in the residues exactly if its remainder is one. -/
theorem natCast_pow_eq_one_iff {p : ℕ} (hp : 1 < p) (a n : ℕ) :
    (a : ZMod p) ^ n = 1 ↔ a ^ n % p = 1 := by
  rw [← Nat.cast_pow, ← Nat.cast_one, ZMod.natCast_eq_natCast_iff', Nat.mod_eq_of_lt hp]

/-- A number that passes Lucas's test is prime if the factors are. -/
theorem prime_of_passesLucas {p : ℕ} (bits a : ℕ) (factors : List ℕ)
    (hfactors : factors.Forall Nat.Prime) (h : passesLucas bits p a factors = true) :
    p.Prime := by
  simp only [passesLucas, Bool.and_eq_true, decide_eq_true_eq, List.all_eq_true] at h
  obtain ⟨⟨⟨⟨hp, hbits⟩, hprod⟩, hone⟩, hne⟩ := h
  rw [List.forall_iff_forall_mem] at hfactors
  have hlt : ∀ n ≤ p - 1, n < 2 ^ bits := fun n hn => by omega
  refine lucas_primality p a ?_ fun q hq hdvd => ?_
  · rw [natCast_pow_eq_one_iff hp, ← powMod_eq p a (hlt _ le_rfl)]
    exact hone
  · rw [← hprod] at hdvd
    have hmem : q ∈ factors :=
      mem_list_primes_of_dvd_prod hq.prime (fun r hr => (hfactors r hr).prime) hdvd
    rw [ne_eq, natCast_pow_eq_one_iff hp, ← powMod_eq p a (hlt _ (Nat.div_le_self _ _))]
    exact hne q hmem

/-! ## Certificates -/

/-- A prime number, a witness of Lucas's test and the prime factors of its predecessor, each listed
as often as it divides. -/
structure LucasStep where
  prime : ℕ
  witness : ℕ
  factors : List ℕ

/-- Every step of a certificate passes the test, and its factors are known or stand before it. -/
def passesAll (bits : ℕ) : (known : List ℕ) → (certificate : List LucasStep) → Bool
  | _, [] => true
  | known, step :: certificate =>
    step.factors.all (known.contains ·) &&
      passesLucas bits step.prime step.witness step.factors &&
      passesAll bits (step.prime :: known) certificate

/-- If every step of a certificate passes, each with the factors of the steps before, all its
numbers are prime. -/
theorem prime_of_passesAll {bits : ℕ} {known : List ℕ} {certificate : List LucasStep}
    (hknown : ∀ q ∈ known, q.Prime) (h : passesAll bits known certificate = true) :
    ∀ step ∈ certificate, step.prime.Prime := by
  induction certificate generalizing known with
  | nil => simp
  | cons step certificate ih =>
    simp only [passesAll, Bool.and_eq_true, List.all_eq_true, List.contains_iff_mem] at h
    obtain ⟨⟨hfactors, hstep⟩, hrest⟩ := h
    have hprime : step.prime.Prime :=
      prime_of_passesLucas bits step.witness step.factors
        (List.forall_iff_forall_mem.mpr fun q hq => hknown q (hfactors q hq)) hstep
    rw [List.forall_mem_cons]
    exact ⟨hprime, ih (List.forall_mem_cons.mpr ⟨hprime, hknown⟩) hrest⟩

/-! ## The order -/

/-- The factors that are small enough to be tested by division. -/
def smallFactors : List ℕ :=
  [2, 3, 5, 7, 11, 23, 41, 43, 73, 269, 307, 1361, 2851, 5879, 30703, 82163, 132667, 137849, 409477,
    531581, 1224481]

/-- The factors from which the certificate starts are prime. -/
theorem prime_of_mem_smallFactors : ∀ q ∈ smallFactors, q.Prime := by
  simp only [smallFactors, List.forall_mem_cons]
  norm_num

/-- The last step of the certificate of the order. -/
def orderStep : LucasStep :=
  ⟨order, 2, [2, 2, 3, 11, 198211423230930754013084525763697,
    276602624281642239937218680557139826668747]⟩

/-- The order and the large factors below it, from the smallest to the largest. -/
def orderCertificate : List LucasStep :=
  [⟨292386187, 2, [2, 3, 3, 3, 3, 307, 5879]⟩,
    ⟨213441916511, 13, [2, 5, 73, 292386187]⟩,
    ⟨1257559732178653, 2, [2, 2, 3, 7, 23, 531581, 1224481]⟩,
    ⟨4434155615661930479, 17, [2, 41, 43, 1257559732178653]⟩,
    ⟨172054593956031949258510691, 2, [2, 5, 1361, 2851, 4434155615661930479]⟩,
    ⟨19757330305831588566944191468367130476339, 2,
      [2, 269, 213441916511, 172054593956031949258510691]⟩,
    ⟨276602624281642239937218680557139826668747, 2,
      [2, 7, 19757330305831588566944191468367130476339]⟩,
    ⟨14741173, 2, [2, 2, 3, 3, 409477]⟩,
    ⟨58964693, 2, [2, 2, 14741173]⟩,
    ⟨3044861653679985063343, 5, [2, 3, 11, 30703, 82163, 132667, 137849]⟩,
    ⟨198211423230930754013084525763697, 5,
      [2, 2, 2, 2, 3, 23, 58964693, 3044861653679985063343]⟩,
    orderStep]

/-- The certificate for the order of the group passes. -/
theorem passesAll_orderCertificate : passesAll 256 smallFactors orderCertificate = true := by
  decide +kernel

/-- The order of the group is prime. -/
theorem prime_order : order.Prime :=
  prime_of_passesAll prime_of_mem_smallFactors passesAll_orderCertificate orderStep
    (by simp [orderCertificate])

instance : Fact order.Prime := ⟨prime_order⟩

end ConfidentialPayment.Scalar
