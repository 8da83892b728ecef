import ConfidentialPayment.Proofs.RangeProof.Batch
import ConfidentialPayment.Ristretto

/-!
# ConfidentialPayment.Proofs.RangeProof.Capacity

Which numbers of values a table has room for.

A refusal names the quotient of the capacity and the number of digits as the most that the table
allows. What is compared with that quotient is the padded number of values, so a table that is said
to allow three values refuses three.

1. The prover and both verifiers refuse a table in one check (`checkCount`) before anything else,
   and later with other errors only (`Use.exists_rejected_of_outcome`).
2. `pad_le_iff_le_two_pow`: what passes the check is bounded by the greatest power of two that is
   not above the quotient.
3. So a refusal means what it says exactly for the tables whose quotient is a power of two, or zero,
   or at least the number of values that one proof covers (`refusals_of_capacity`).
-/

namespace ConfidentialPayment

/-- A padding is not above a number exactly if the count is not above the leading power of two of
the number. -/
theorem pad_le_iff_le_two_pow {count room : ℕ} (hroom : room ≠ 0) :
    pad count ≤ room ↔ count ≤ 2 ^ room.log2 := by
  constructor
  · intro h
    have hlog : ceilLog2 count ≤ room.log2 := (Nat.le_log2 hroom).mpr h
    exact (le_pad count).trans (Nat.pow_le_pow_right (by decide) hlog)
  · intro h
    exact (pad_le_of_le h).trans (Nat.log2_self_le hroom)

namespace RangeProof

variable {P : Type} {count given max : ℕ}

/-! ## The check -/

/-- The number of values that a table is said to have room for. -/
def room (table : GeneratorTable P) : ℕ := table.capacity / bitCount

/-- Refuses a number of values without room for its padding. -/
def checkCount (table : GeneratorTable P) (count : ℕ) : Except Error Unit :=
  if pad count ≤ room table then .ok () else .error (.tooManyOutputs count (room table))

variable {table : GeneratorTable P}

/-- As many values as asked for are allowed if the table has room for them, padded. -/
theorem checkCount_eq_ok_iff : checkCount table count = .ok () ↔ pad count ≤ room table := by
  simp [checkCount]

/-- A refusal names the number of values as given, and the room of the table as it is. -/
theorem checkCount_eq_error_iff : checkCount table count = .error (.tooManyOutputs given max) ↔
    room table < pad count ∧ count = given ∧ room table = max := by
  by_cases h : pad count ≤ room table
  · simp [checkCount, h, Nat.not_lt.mpr h]
  · simp [checkCount, h, Nat.lt_of_not_le h]

/-- A base for each digit of the padded values is room for the padding. -/
theorem pad_le_room_iff : pad count ≤ room table ↔ vectorLength count ≤ table.capacity := by
  rw [room, Nat.le_div_iff_mul_le (by decide), vectorLength, Nat.mul_comm]

/-- The prover checks the number of its values. -/
theorem Witness.checkCapacity_eq (w : Witness) :
    w.checkCapacity table = checkCount table w.values.length := by
  unfold checkCapacity checkCount
  by_cases h : w.vectorLength ≤ table.capacity
  · rw [if_neg (Nat.not_lt.mpr h), if_pos (pad_le_room_iff.mpr h)]
  · rw [if_pos (Nat.lt_of_not_le h), if_neg (pad_le_room_iff.not.mpr h)]
    rfl

/-- Of a well-formed proof the verifiers check the number of its commitments. -/
theorem checkShape_eq {proof : Proof P} (hproof : proof.isWellFormed = true) :
    checkShape table proof = checkCount table proof.commitments.length := by
  unfold checkShape checkCount
  rw [if_neg (not_not.mpr hproof)]
  by_cases h : vectorLength proof.commitments.length ≤ table.capacity
  · rw [if_neg (Nat.not_lt.mpr h), if_pos (pad_le_room_iff.mpr h)]
  · rw [if_pos (Nat.lt_of_not_le h), if_neg (pad_le_room_iff.not.mpr h)]
    rfl

/-! ## Runs over a table -/

/-- A run of one of the programs that need a table. -/
inductive Use (P : Type)
  | prove (w : Witness) (tape : RandomSource)
  | verify (proof : Proof P)
  | verifyBatch (proofs : List (Proof P)) (tape : RandomSource)

namespace Use

/-- A run about that many values in each proof, of the right shape. -/
def Covers (count : ℕ) : Use P → Prop
  | prove w _ => w.values.length = count
  | verify proof => proof.isWellFormed = true ∧ proof.commitments.length = count
  | verifyBatch proofs _ => proofs ≠ [] ∧
      ∀ proof ∈ proofs, proof.isWellFormed = true ∧ proof.commitments.length = count

/-- What a run checks before anything else. -/
def check (table : GeneratorTable P) : Use P → Except Error Unit
  | prove w _ => w.checkCapacity table
  | verify proof => checkShape table proof
  | verifyBatch proofs _ => proofs.forM (checkShape table)

variable {use : Use P}

/-- Runs about the same number of values have the same check. -/
theorem Covers.check_eq (h : use.Covers count) : use.check table = checkCount table count := by
  cases use with
  | prove w tape =>
    obtain rfl : w.values.length = count := h
    exact w.checkCapacity_eq
  | verify proof =>
    obtain ⟨hproof, rfl⟩ := h
    exact checkShape_eq hproof
  | verifyBatch proofs tape =>
    obtain ⟨hne, hall⟩ := h
    have hshape (proof) (hproof : proof ∈ proofs) :
        checkShape table proof = checkCount table count :=
      (hall proof hproof).2 ▸ checkShape_eq (hall proof hproof).1
    cases hcount : checkCount table count with
    | ok u => exact forM_eq_ok.mpr fun proof hproof => (hshape proof hproof).trans hcount
    | error e =>
      -- The first proof of the batch is refused already.
      obtain ⟨proof, rest, rfl⟩ := List.exists_cons_of_ne_nil hne
      change (checkShape table proof >>= fun _ => rest.forM (checkShape table)) = _
      rw [hshape proof (List.mem_cons_self ..), hcount]
      rfl

/-- The number that a refusal gives is one that a proof may cover, and its padding has no room. -/
theorem lt_pad_of_check (h : use.check table = .error (.tooManyOutputs given max)) :
    (1 ≤ given ∧ given ≤ maxValues) ∧ room table = max ∧ max < pad given := by
  have hproof (proof : Proof P)
      (hshape : checkShape table proof = .error (.tooManyOutputs given max)) :
      (1 ≤ given ∧ given ≤ maxValues) ∧ room table = max ∧ max < pad given := by
    by_cases hformed : proof.isWellFormed = true
    · rw [checkShape_eq hformed] at hshape
      obtain ⟨hlt, rfl, rfl⟩ := checkCount_eq_error_iff.mp hshape
      simp only [Proof.isWellFormed, Bool.and_eq_true, decide_eq_true_eq] at hformed
      exact ⟨hformed.1.1, rfl, hlt⟩
    · rw [checkShape, if_pos hformed] at hshape
      cases hshape
  cases use with
  | prove w tape =>
    rw [check, w.checkCapacity_eq] at h
    obtain ⟨hlt, rfl, rfl⟩ := checkCount_eq_error_iff.mp h
    exact ⟨⟨List.length_pos_iff.mpr w.values_ne_nil, w.length_le⟩, rfl, hlt⟩
  | verify proof => exact hproof proof h
  | verifyBatch proofs tape =>
    obtain ⟨proof, -, hshape⟩ := exists_of_forM_eq_error h
    exact hproof proof hshape

/-- Every number of values that a proof may cover is covered by a prover. -/
theorem exists_covers (P : Type) (hpos : 1 ≤ count) (hle : count ≤ maxValues) :
    ∃ use : Use P, use.Covers count := by
  have hlength : (List.replicate count (1 : UInt64)).length = count := List.length_replicate
  have hblindings : (List.replicate count (0 : Scalar)).length =
      (List.replicate count (1 : UInt64)).length := by simp
  have hvalues : ∀ v ∈ List.replicate count (1 : UInt64), v ≠ 0 := by
    intro v hv
    rw [List.eq_of_mem_replicate hv]
    decide
  obtain ⟨w, hw⟩ := Witness.exists_make hblindings (List.ne_nil_of_length_pos (by omega))
    (by omega) hvalues
  refine ⟨.prove w (.ofCycle []), ?_⟩
  rw [Covers, (w.make_eq_ok hw).1, hlength]

/-! ## Outcomes -/

variable [Suite P]

/-- What a run ends with, where the proof that is made is left out. -/
def outcome (gens : Generators P) (table : GeneratorTable P) : Use P → Except Error Unit
  | prove w tape => ((w.prove gens table).outcome tape).map fun _ => ()
  | verify proof => proof.verify gens table
  | verifyBatch proofs tape => (RangeProof.verifyBatch gens table proofs).outcome tape

variable {gens : Generators P} {e : Error}

/-- A run ends where its check fails. -/
theorem outcome_of_check (h : use.check table = .error e) : use.outcome gens table = .error e := by
  cases use with
  | prove w tape =>
    change w.checkCapacity table = .error e at h
    rw [outcome, Witness.prove, DrawExcept.outcome_ofExcept_bind, h]
    rfl
  | verify proof =>
    change checkShape table proof = .error e at h
    rw [outcome, Proof.verify, h]
    rfl
  | verifyBatch proofs tape =>
    change proofs.forM (checkShape table) = .error e at h
    rw [outcome, RangeProof.verifyBatch, DrawExcept.outcome_ofExcept_bind, h]
    rfl

/-- A proof that passes the check is refused for a statement. -/
theorem exists_rejected_of_verify {proof : Proof P} (hcheck : checkShape table proof = .ok ())
    (h : proof.verify gens table = .error e) : ∃ statement, e = .rejected .range statement := by
  rcases bind_eq_error.mp h with hshape | ⟨-, -, hmoves⟩
  · cases hcheck.symm.trans hshape
  · rcases bind_eq_error.mp hmoves with hequations | ⟨-, -, hargument⟩
    · exact Equation.exists_rejected_of_checkAll hequations
    · dsimp only [Proof.verifyArgument] at hargument
      split at hargument
      · cases hargument
      · exact ⟨3, (Except.error.inj hargument).symm⟩

/-- So is a batch, for its sum or for a proof without challenges. -/
theorem exists_rejected_of_verifyBatchWith {proofs : List (Proof P)} {weights : List Weights}
    (h : verifyBatchWith gens table proofs weights = .error e) :
    ∃ statement, e = .rejected .range statement := by
  rcases bind_eq_error.mp h with hparts | ⟨parts, -, htotal⟩
  · obtain ⟨⟨proof, k⟩, -, hpart⟩ := exists_of_mapM_eq_error hparts
    dsimp only [Weights.combinationOf] at hpart
    split at hpart
    · cases hpart
    · exact ⟨0, (Except.error.inj hpart).symm⟩
  · split at htotal
    · cases htotal
    · exact ⟨0, (Except.error.inj htotal).symm⟩

/-- A run whose check passes fails for a statement only. -/
theorem exists_rejected_of_outcome (hcheck : use.check table = .ok ())
    (h : use.outcome gens table = .error e) : ∃ statement, e = .rejected .range statement := by
  cases use with
  | prove w tape =>
    have hcapacity := (Witness.checkCapacity_eq_ok_iff table w).mp hcheck
    obtain ⟨proof, rest, hrun, -⟩ := w.prove_ensures_isWellFormed gens table hcapacity tape
    rw [outcome, DrawExcept.outcome_eq_ok_iff.mpr ⟨rest, hrun⟩] at h
    cases h
  | verify proof => exact exists_rejected_of_verify hcheck h
  | verifyBatch proofs tape =>
    rw [outcome, RangeProof.verifyBatch, DrawExcept.outcome_ofExcept_bind] at h
    rcases bind_eq_error.mp h with hshape | ⟨-, -, hsum⟩
    · cases hcheck.symm.trans hshape
    · rw [DrawExcept.outcome_lift_bind, DrawExcept.outcome_ofExcept] at hsum
      exact exists_rejected_of_verifyBatchWith hsum

/-- A table is refused for its size in the check only. -/
theorem outcome_eq_tooManyOutputs_iff :
    use.outcome gens table = .error (.tooManyOutputs given max) ↔
      use.check table = .error (.tooManyOutputs given max) := by
  refine ⟨fun h => ?_, outcome_of_check⟩
  cases hcheck : use.check table with
  | ok u =>
    obtain ⟨statement, he⟩ := exists_rejected_of_outcome hcheck h
    cases he
  | error e => exact (outcome_of_check hcheck).symm.trans h

/-- Whether every refusal for the size of the table is about more values than it says are allowed,
while every number up to that passes the check. -/
def RefusesConsistently (gens : Generators P) (table : GeneratorTable P) : Prop :=
  ∀ (use : Use P) (given max : ℕ), use.outcome gens table = .error (.tooManyOutputs given max) →
    max < given ∧ ∀ count, 1 ≤ count → count ≤ min max 32 →
      ∀ use' : Use P, use'.Covers count → use'.check table = .ok ()

/-- A table without room for the padding of the number that it is said to have room for refuses this
number. -/
theorem exists_two_pow_of_refusesConsistently (h : RefusesConsistently gens table)
    (hpos : 1 ≤ room table) (hle : room table ≤ maxValues) : ∃ k, room table = 2 ^ k := by
  by_cases hpad : pad (room table) ≤ room table
  · exact ⟨_, Nat.le_antisymm (le_pad _) hpad⟩
  · obtain ⟨use, huse⟩ := exists_covers P hpos hle
    have hcheck : use.check table = .error (.tooManyOutputs (room table) (room table)) :=
      huse.check_eq.trans (checkCount_eq_error_iff.mpr ⟨Nat.lt_of_not_le hpad, rfl, rfl⟩)
    exact absurd (h use _ _ (outcome_of_check hcheck)).1 (Nat.lt_irrefl _)

/-- Refusals are consistent exactly if the room is zero, a power of two, or enough for any proof. -/
theorem refusesConsistently_iff :
    RefusesConsistently gens table ↔
      room table = 0 ∨ (∃ k, room table = 2 ^ k) ∨ 32 ≤ room table := by
  constructor
  · intro h
    by_cases hzero : room table = 0
    · exact .inl hzero
    · by_cases hlarge : 32 ≤ room table
      · exact .inr (.inr hlarge)
      · exact .inr (.inl (exists_two_pow_of_refusesConsistently h (Nat.pos_of_ne_zero hzero)
          (Nat.le_of_not_le hlarge)))
  · intro hroom use given max h
    obtain ⟨⟨hpos, hle⟩, rfl, hlt⟩ := lt_pad_of_check (outcome_eq_tooManyOutputs_iff.mp h)
    rcases hroom with hzero | ⟨k, hpower⟩ | hlarge
    · exact ⟨by omega, fun count hcount hmin => by omega⟩
    · have hpad {count : ℕ} (hcount : count ≤ room table) : pad count ≤ room table :=
        hpower ▸ pad_le_of_le (hpower ▸ hcount)
      refine ⟨Nat.lt_of_not_le fun hgiven => Nat.not_le_of_lt hlt (hpad hgiven), ?_⟩
      intro count _ hmin use' huse'
      exact huse'.check_eq.trans (checkCount_eq_ok_iff.mpr (hpad (hmin.trans (Nat.min_le_left ..))))
    · -- No table of this size is refused, since paddings end at the number that a proof covers.
      have hpad : pad given ≤ 2 ^ 5 := pad_le_of_le hle
      omega

end Use

/-- Refusals for the size of a table. They name the quotient of the capacity and the number of
digits. A run of the prover or of a verifier is refused so only for a number of values, of those
that one proof covers, whose padding is above that quotient. Runs about the same number of values
pass the check if its padding is not above the quotient, which means that the number is not above
the leading power of two of the quotient, and otherwise all of them are refused. So every refusal is
about more values than it says are allowed, while all numbers up to that pass the check
(`Use.RefusesConsistently`), exactly if the quotient is zero, or a power of two, or not below the
number of values that one proof covers. -/
theorem refusals_of_capacity [Suite P] (gens : Generators P) (table : GeneratorTable P) :
    let allowed := table.capacity / 64
    (∀ (use : Use P) (given max : ℕ),
      use.outcome gens table = .error (.tooManyOutputs given max) →
        (1 ≤ given ∧ given ≤ 32) ∧ max = allowed ∧ allowed < pad given) ∧
    (∀ (use : Use P) (count : ℕ), use.Covers count →
      (use.check table = .ok () ↔ pad count ≤ allowed) ∧
      (use.outcome gens table = .error (.tooManyOutputs count allowed) ↔ allowed < pad count)) ∧
    (allowed ≠ 0 → ∀ count, pad count ≤ allowed ↔ count ≤ 2 ^ allowed.log2) ∧
    (Use.RefusesConsistently gens table ↔
      allowed = 0 ∨ (∃ k, allowed = 2 ^ k) ∨ 32 ≤ allowed) := by
  intro allowed
  refine ⟨fun use given max h => ?_, fun use count h => ⟨?_, ?_⟩, fun h count => ?_, ?_⟩
  · obtain ⟨hgiven, rfl, hlt⟩ := Use.lt_pad_of_check (Use.outcome_eq_tooManyOutputs_iff.mp h)
    exact ⟨hgiven, rfl, hlt⟩
  · rw [h.check_eq, checkCount_eq_ok_iff]
    rfl
  · rw [Use.outcome_eq_tooManyOutputs_iff, h.check_eq, checkCount_eq_error_iff]
    exact and_iff_left ⟨rfl, rfl⟩
  · exact pad_le_iff_le_two_pow h
  · exact Use.refusesConsistently_iff

/-- A table that is said to allow three values refuses three and has room for two, while a table for
four refuses consistently. -/
theorem refusals_of_capacity_three :
    let three := GeneratorTable.neutral Opening 192
    let four := GeneratorTable.neutral Opening 256
    (∃ use : Use Opening, use.Covers 3 ∧
      use.outcome .ideal three = .error (.tooManyOutputs 3 3)) ∧
    (∃ use : Use Opening, use.Covers 2 ∧ use.check three = .ok ()) ∧
    ¬ Use.RefusesConsistently .ideal three ∧ Use.RefusesConsistently .ideal four := by
  intro three four
  obtain ⟨-, hcovers, hlog, -⟩ := refusals_of_capacity .ideal three
  obtain ⟨-, -, -, hconsistent⟩ := refusals_of_capacity .ideal four
  have hthree : three.capacity / 64 = 3 := by simp [three]
  have hfour : four.capacity / 64 = 2 ^ 2 := by simp [four]
  rw [hthree] at hcovers hlog
  obtain ⟨use, huse⟩ := Use.exists_covers Opening (show 1 ≤ 3 by decide) (by decide)
  obtain ⟨use', huse'⟩ := Use.exists_covers Opening (show 1 ≤ 2 by decide) (by decide)
  have hrefused : use.outcome .ideal three = .error (.tooManyOutputs 3 3) :=
    (hcovers use 3 huse).2.mpr (by decide)
  have hpasses : use'.check three = .ok () :=
    (hcovers use' 2 huse').1.mpr ((hlog (by decide) 2).mpr (by decide))
  refine ⟨⟨use, huse, hrefused⟩, ⟨use', huse', hpasses⟩, fun h => ?_,
    hconsistent.mpr (.inr (.inl ⟨2, hfour⟩))⟩
  exact absurd (h use 3 3 hrefused).1 (Nat.lt_irrefl 3)

/-- A public table of 192 bases refuses three values and says that three are allowed, to a prover
and to both verifiers. -/
theorem exists_refused_as_allowed :
    let gens := Generators.standard Ristretto.Point
    let table := GeneratorTable.ofCapacity Ristretto.Point 192
    let proof : Proof Ristretto.Point := ⟨[0, 0, 0], ⟨0, 0⟩, ⟨0, 0⟩, ⟨0, 0, 0⟩,
      ⟨List.replicate 8 ⟨0, 0⟩, 0, 0, 0⟩⟩
    (∃ w tape, Witness.make [1, 2, 3] [1, 2, 3] = .ok w ∧
      (Use.prove w tape).outcome gens table = .error (.tooManyOutputs 3 3)) ∧
    (Use.verify proof).outcome gens table = .error (.tooManyOutputs 3 3) ∧
    (∃ tape, (Use.verifyBatch [proof] tape).outcome gens table = .error (.tooManyOutputs 3 3)) ∧
    ¬ 3 < 3 := by
  intro gens table proof
  have hroom : room table = 3 := by
    simp [room, table, bitCount, GeneratorTable.ofCapacity, GeneratorTable.capacity]
  have hcount : checkCount table 3 = .error (.tooManyOutputs 3 3) :=
    checkCount_eq_error_iff.mpr ⟨by rw [hroom]; decide, rfl, hroom⟩
  have hrefused {use : Use Ristretto.Point} (h : use.Covers 3) :
      use.outcome gens table = .error (.tooManyOutputs 3 3) :=
    Use.outcome_of_check (h.check_eq.trans hcount)
  have hproof : proof.isWellFormed = true := by decide +kernel
  obtain ⟨w, hw⟩ : ∃ w, Witness.make [1, 2, 3] [1, 2, 3] = .ok w := ⟨_, rfl⟩
  refine ⟨⟨w, .ofCycle [], hw, hrefused ?_⟩, hrefused ⟨hproof, rfl⟩, ⟨.ofCycle [], hrefused ?_⟩,
    Nat.lt_irrefl 3⟩
  · rw [Use.Covers, (w.make_eq_ok hw).1]
    rfl
  · exact ⟨List.cons_ne_nil _ _, List.forall_mem_singleton.mpr ⟨hproof, rfl⟩⟩

end RangeProof

end ConfidentialPayment
