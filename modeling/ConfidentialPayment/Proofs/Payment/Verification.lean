import Mathlib.Algebra.Module.Basic
import ConfidentialPayment.Payment.Verification
import ConfidentialPayment.Proofs.Amount
import ConfidentialPayment.Proofs.Suite.VectorSpace

/-!
# ConfidentialPayment.Proofs.Payment.Verification

What a verifier has checked when it accepts a payment.

Each part of verification has one lemma that says exactly when it succeeds. The two results are
`Proof.verifyTransparent_eq_ok_iff` and `Proof.gives_verifyPrivate`; what follows from acceptance,
and what makes a payment acceptable, is derived from them and not from the programs.
-/

namespace ConfidentialPayment.Payment

variable {P : Type} [Suite P] {gens : Generators P} {table : GeneratorTable P}
  {ledger : Ledger.View P} {fee : UInt64} {proof : Proof P}

/-! ## Serial numbers -/

/-- A list without repetitions has no equal neighbours. -/
theorem hasEqualNeighbours_eq_false {α : Type} [DecidableEq α] {as : List α} (h : as.Nodup) :
    hasEqualNeighbours as = false := by
  induction as with
  | nil => rfl
  | cons a as ih =>
    obtain ⟨ha, has⟩ := List.nodup_cons.mp h
    cases as with
    | nil => rfl
    | cons b as =>
      have hne : a ≠ b := fun hab => ha (hab ▸ List.mem_cons_self ..)
      rw [hasEqualNeighbours, ih has, decide_eq_false hne, Bool.false_or]

/-- Different serial numbers pass the check, in whatever order they are sorted. -/
theorem repeatsSerialNumber_eq_false {coins : List (Coin P)}
    (h : (coins.map Coin.serialNumber).Nodup) : repeatsSerialNumber coins = false :=
  hasEqualNeighbours_eq_false ((List.mergeSort_perm ..).nodup_iff.mpr h)

/-- The coins are checked for inputs, for outputs, and for serial numbers that repeat. -/
theorem Proof.checkCoins_eq_ok_iff : proof.checkCoins = .ok () ↔
    proof.inputs ≠ [] ∧ proof.outputs ≠ [] ∧ repeatsSerialNumber proof.inputs = false := by
  unfold checkCoins
  rw [ne_eq, ne_eq, ← List.isEmpty_iff, ← List.isEmpty_iff, ← and_assoc, ← not_or,
    ← Bool.or_eq_true]
  split_ifs with hempty hrepeats
  · simp [hempty]
  · simp [hempty, hrepeats]
  · simp [hempty, hrepeats]

theorem Proof.checkCoins_eq_ok (hinputs : proof.inputs ≠ []) (houtputs : proof.outputs ≠ [])
    (hserials : (proof.inputs.map Coin.serialNumber).Nodup) : proof.checkCoins = .ok () :=
  checkCoins_eq_ok_iff.mpr ⟨hinputs, houtputs, repeatsSerialNumber_eq_false hserials⟩

/-- A payment that passes the checks has inputs and outputs. -/
theorem Proof.ne_nil_of_checkCoins (h : proof.checkCoins = .ok ()) :
    proof.inputs ≠ [] ∧ proof.outputs ≠ [] :=
  have ⟨hinputs, houtputs, _⟩ := checkCoins_eq_ok_iff.mp h
  ⟨hinputs, houtputs⟩

/-! ## Transparent payments -/

/-- The sum of the values of a list of coins. -/
def totalValue (coins : List (Coin P)) : ℕ := (coins.map fun coin => coin.value.toNat).sum

omit [Suite P] in
/-- A payment is transparent if it has as many revealed serial numbers as inputs and no part of a
private one. -/
theorem Proof.isTransparent_iff : proof.isTransparent = true ↔
    proof.revealedSerials.length = proof.inputs.length ∧ proof.memberships = [] ∧
      proof.hiddenSerials = [] ∧ proof.range = none := by
  simp only [isTransparent, Bool.and_eq_true, decide_eq_true_eq, List.isEmpty_iff,
    Option.isNone_iff_eq_none, and_assoc]

/-- What is checked of one transparent input. -/
structure IsSpendable (gens : Generators P) (ledger : Ledger.View P)
    (input : Coin P × SerialNumber.Revealed.Proof P) : Prop where
  committed : input.1.isCommitted gens = true
  known : ledger.contains input.1.commitment = true
  serial : input.2.verify gens (revealedStatement input.1) = .ok ()

/-- Inputs are spent one by one: each can be spent, and their values add up without overflow. -/
theorem spendRevealed_eq_ok_iff {total sum : UInt64}
    {inputs : List (Coin P × SerialNumber.Revealed.Proof P)} :
    spendRevealed gens ledger total inputs = .ok sum ↔
      (∀ input ∈ inputs, IsSpendable gens ledger input) ∧
        sum.toNat = total.toNat + totalValue (inputs.map Prod.fst) := by
  induction inputs generalizing total with
  | nil =>
    rw [spendRevealed, Except.ok.injEq, List.map_nil, totalValue, List.map_nil, List.sum_nil,
      Nat.add_zero, UInt64.toNat_inj, and_iff_right (List.forall_mem_nil _)]
    exact eq_comm
  | cons input inputs ih =>
    obtain ⟨coin, serial⟩ := input
    rw [spendRevealed, refuse_eq_ok, check_bind_eq_ok, bind_eq_ok, not_not, List.forall_mem_cons]
    simp only [Amount.add_eq_ok_iff, ih, totalValue, List.map_cons, List.sum_cons]
    constructor
    · rintro ⟨⟨hcommitted, hknown⟩, hserial, next, hnext, hrest, hsum⟩
      exact ⟨⟨⟨hcommitted, hknown, hserial⟩, hrest⟩, by omega⟩
    · rintro ⟨⟨⟨hcommitted, hknown, hserial⟩, hrest⟩, hsum⟩
      have hlt : sum.toNat < UInt64.size := sum.toNat_lt
      have hnext : (UInt64.ofNat (total.toNat + coin.value.toNat)).toNat =
          total.toNat + coin.value.toNat := UInt64.toNat_ofNat_of_lt' (by omega)
      exact ⟨⟨hcommitted, hknown⟩, hserial, _, hnext, hrest, by omega⟩

/-- Outputs are created one by one: each is committed, and their values add up without overflow. -/
theorem createRevealed_eq_ok_iff {total sum : UInt64} {outputs : List (OutputCoin P)} :
    createRevealed gens total outputs = .ok sum ↔
      (∀ output ∈ outputs, output.coin.isCommitted gens = true) ∧
        sum.toNat = total.toNat + totalValue (outputs.map OutputCoin.coin) := by
  induction outputs generalizing total with
  | nil =>
    rw [createRevealed, Except.ok.injEq, List.map_nil, totalValue, List.map_nil, List.sum_nil,
      Nat.add_zero, UInt64.toNat_inj, and_iff_right (List.forall_mem_nil _)]
    exact eq_comm
  | cons output outputs ih =>
    rw [createRevealed, refuse_eq_ok, bind_eq_ok, not_not, List.forall_mem_cons]
    simp only [Amount.add_eq_ok_iff, ih, totalValue, List.map_cons, List.sum_cons]
    constructor
    · rintro ⟨hcommitted, next, hnext, hrest, hsum⟩
      exact ⟨⟨hcommitted, hrest⟩, by omega⟩
    · rintro ⟨⟨hcommitted, hrest⟩, hsum⟩
      have hlt : sum.toNat < UInt64.size := sum.toNat_lt
      have hnext : (UInt64.ofNat (total.toNat + output.coin.value.toNat)).toNat =
          total.toNat + output.coin.value.toNat := UInt64.toNat_ofNat_of_lt' (by omega)
      exact ⟨hcommitted, _, hnext, hrest, by omega⟩

/-- A transparent payment is accepted exactly if it has the right parts, every input can be spent,
every output is committed to, and the amounts balance without leaving the 64-bit range. -/
theorem Proof.verifyTransparent_eq_ok_iff :
    proof.verifyTransparent gens ledger fee = .ok () ↔
      proof.isTransparent = true ∧
      (∀ input ∈ proof.inputs.zip proof.revealedSerials, IsSpendable gens ledger input) ∧
      (∀ output ∈ proof.outputs, output.coin.isCommitted gens = true) ∧
      totalValue proof.inputs < UInt64.size ∧
      totalValue proof.inputs = fee.toNat + totalValue (proof.outputs.map OutputCoin.coin) := by
  rw [verifyTransparent, refuse_eq_ok, not_not]
  refine and_congr_right fun hparts => ?_
  have hlength : proof.inputs.length ≤ proof.revealedSerials.length :=
    (isTransparent_iff.mp hparts).1.ge
  simp only [bind_eq_ok, spendRevealed_eq_ok_iff, createRevealed_eq_ok_iff,
    List.map_fst_zip hlength]
  constructor
  · rintro ⟨spent, ⟨hinputs, hspent⟩, created, ⟨houtputs, hcreated⟩, hbalance⟩
    by_cases h : spent = created
    · have hlt : spent.toNat < UInt64.size := spent.toNat_lt
      have hzero : (0 : UInt64).toNat = 0 := rfl
      subst h
      exact ⟨hinputs, houtputs, by omega, by omega⟩
    · rw [if_pos h] at hbalance
      cases hbalance
  · rintro ⟨hinputs, houtputs, hlt, hbalance⟩
    have hspent : (UInt64.ofNat (totalValue proof.inputs)).toNat = totalValue proof.inputs :=
      UInt64.toNat_ofNat_of_lt' hlt
    refine ⟨_, ⟨hinputs, hspent.trans (Nat.zero_add _).symm⟩, _,
      ⟨houtputs, hspent.trans hbalance⟩, ?_⟩
    rw [if_neg (not_not.mpr rfl)]
    rfl

/-! ## Private payments -/

/-- The lists of a private payment have the lengths that its inputs and outputs ask for, and no
part is missing. -/
structure Proof.HasParts (proof : Proof P) (s : Shielding P) : Prop where
  memberships : proof.memberships.length = proof.inputs.length
  hiddenSerials : proof.hiddenSerials.length = proof.inputs.length
  inputValues : proof.inputValues.length = proof.inputs.length
  inputDerivators : proof.inputDerivators.length = proof.inputs.length
  ringIndices : proof.ringIndices.length = proof.inputs.length * Membership.ringSize
  outputValues : proof.outputValues.length = proof.outputs.length
  outputDerivators : proof.outputDerivators.length = proof.outputs.length
  outputShards : proof.outputShards.length = proof.outputs.length
  revealedSerials : proof.revealedSerials = []
  key : proof.key = some s.key
  inputShard : proof.inputShard = some s.shard
  range : proof.range = some s.range

omit [Suite P] in
/-- A payment is taken as private exactly if all its parts are there. -/
theorem Proof.shielding?_eq_some_iff {s : Shielding P} :
    proof.shielding? = some s ↔ proof.HasParts s := by
  unfold shielding?
  constructor
  · intro h
    dsimp only at h
    split at h
    · next hlengths =>
      split at h
      · next key shard range hkey hshard hrange =>
        obtain rfl := Option.some.inj h
        obtain ⟨h₁, h₂, h₃, h₄, h₅, h₆, h₇, h₈, h₉⟩ := hlengths
        exact ⟨h₁, h₂, h₃, h₄, h₅, h₆, h₇, h₈, h₉, hkey, hshard, hrange⟩
      · cases h
    · cases h
  · intro h
    dsimp only
    rw [if_pos ⟨h.memberships, h.hiddenSerials, h.inputValues, h.inputDerivators, h.ringIndices,
      h.outputValues, h.outputDerivators, h.outputShards, h.revealedSerials⟩, h.key, h.inputShard,
      h.range]

/-- A point passes as a shard if it is the commitment to one of the few shards. -/
theorem isShardCommitment_iff {commitment : P} :
    isShardCommitment gens commitment = true ↔
      ∃ shard < shardCount, gens.commitShard shard = commitment := by
  simp [isShardCommitment]

/-- A ring member is a commitment of the ledger without the shown parts of the input. -/
theorem ringMember_eq_ok_iff {sum member : P} {index : UInt64} :
    ringMember ledger sum index = .ok member ↔
      ∃ commitment, ledger.commitmentAt index = some commitment ∧ commitment - sum = member := by
  unfold ringMember
  cases ledger.commitmentAt index with
  | none => simp
  | some commitment => simp

/-- What is checked of one private output and its parts. -/
theorem isAssembled_iff {coin : Coin P} {value derivator shard : P} :
    isAssembled gens coin value derivator shard = true ↔
      derivator = gens.commitDerivator coin.derivator ∧ shard = gens.commitShard coin.shard ∧
        coin.publicKey + value + derivator + shard = coin.commitment := by
  simp [isAssembled, and_assoc]

/-- A private payment balances if its inputs are its outputs and the fee. -/
theorem Proof.isBalanced_iff :
    proof.isBalanced gens fee = true ↔
      proof.inputValues.sum = proof.outputValues.sum + Scalar.ofUInt64 fee • gens.value := by
  rw [isBalanced, decide_eq_true_iff, sumPoints_eq_sum, sumPoints_eq_sum]

/-- The serial numbers are accepted if each proof is, for its input and the key of the payment. -/
theorem Proof.verifyHiddenSerials_eq_ok_iff {s : Shielding P} :
    proof.verifyHiddenSerials gens s = .ok () ↔
      ∀ input ∈ (proof.inputs.zip proof.hiddenSerials).zip proof.inputDerivators,
        input.1.2.verify gens ⟨input.1.1.serialNumber, s.key, input.2⟩ = .ok () :=
  forM_eq_ok

/-- Rings are opened for one of the shards only. -/
theorem Proof.openRings_eq_ok_iff {s : Shielding P} {rings : List (List P)} :
    proof.openRings gens ledger s = .ok rings ↔
      isShardCommitment gens s.shard = true ∧ proof.rings ledger s = .ok rings := by
  unfold openRings
  by_cases h : isShardCommitment gens s.shard = true
  · rw [if_pos h, and_iff_right h]
  · rw [if_neg h]
    simp [h]

/-- What is checked of a private payment apart from its rings, in this order. -/
theorem Proof.verifyShielded_eq_ok_iff {s : Shielding P} :
    proof.verifyShielded gens table fee s = .ok () ↔
      proof.verifyHiddenSerials gens s = .ok () ∧ proof.outputsAreAssembled gens = true ∧
      s.range.commitments = proof.outputValues ∧ s.range.verify gens table = .ok () ∧
      proof.isBalanced gens fee = true := by
  rw [verifyShielded, check_bind_eq_ok, refuse_eq_ok, refuse_eq_ok, check_bind_eq_ok]
  by_cases h : proof.isBalanced gens fee = true
  · simp [h, pure, Except.pure]
  · simp [h, throw, throwThe, MonadExceptOf.throw]

/-- A private payment is accepted exactly if it has the right parts, all rings can be looked up, the
membership proofs pass as a batch, and the checks after them pass. -/
theorem Proof.gives_verifyPrivate {tape rest : RandomSource} :
    (proof.verifyPrivate gens table ledger fee).Gives tape () rest ↔
      ∃ s rings, proof.HasParts s ∧ proof.openRings gens ledger s = .ok rings ∧
        (Membership.verifyBatch gens proof.memberships rings).Gives tape () rest ∧
        proof.verifyShielded gens table fee s = .ok () := by
  unfold verifyPrivate
  simp only [← shielding?_eq_some_iff]
  cases proof.shielding? with
  | none => simp [DrawExcept.gives_fail]
  | some s =>
    simp only [DrawExcept.gives_bind, DrawExcept.gives_ofExcept, Option.some.injEq]
    constructor
    · rintro ⟨rings, _, ⟨hrings, rfl⟩, ⟨⟩, _, hbatch, hchecks, rfl⟩
      exact ⟨s, rings, rfl, hrings, hbatch, hchecks⟩
    · rintro ⟨_, rings, rfl, hrings, hbatch, hchecks⟩
      exact ⟨rings, tape, ⟨hrings, rfl⟩, (), rest, hbatch, hchecks, rfl⟩

/-! ## All payments -/

/-- A payment is accepted exactly if its coins pass and it is accepted in the mode that the verifier
asks for. -/
theorem Proof.gives_verify {isPrivate : Bool} {tape rest : RandomSource} :
    (proof.verify gens table ledger isPrivate fee).Gives tape () rest ↔
      proof.checkCoins = .ok () ∧
        if isPrivate then (proof.verifyPrivate gens table ledger fee).Gives tape () rest
        else proof.verifyTransparent gens ledger fee = .ok () ∧ tape = rest := by
  unfold verify
  rw [DrawExcept.gives_bind]
  simp only [DrawExcept.gives_ofExcept]
  constructor
  · rintro ⟨⟨⟩, _, ⟨hcoins, rfl⟩, hmode⟩
    cases isPrivate with
    | false => exact ⟨hcoins, DrawExcept.gives_ofExcept.mp hmode⟩
    | true => exact ⟨hcoins, hmode⟩
  · rintro ⟨hcoins, hmode⟩
    refine ⟨(), tape, ⟨hcoins, rfl⟩, ?_⟩
    cases isPrivate with
    | false => exact DrawExcept.gives_ofExcept.mpr hmode
    | true => exact hmode

end ConfidentialPayment.Payment
