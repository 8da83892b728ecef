import ConfidentialPayment.Machine.Payment
import ConfidentialPayment.Proofs.Machine.Arithmetic
import ConfidentialPayment.Proofs.Payment.Payable

/-!
# ConfidentialPayment.Proofs.Machine.Payment

Making witnesses on the machine never faults.

1. `DrawMachine.ofDrawExcept` carries programs that cannot fault to the machine, with their
   sequences and traversals.
2. The parts of the witness builder are what it makes of their counterparts, given what the checks
   before them have established: an access is safe because of the lengths of the rings, and a number
   is a word because inputs and outputs are few.
3. `buildWitness_eq` says so of the whole builder. Its runs are those of `Witness.ofRequest`, and
   they succeed exactly for payable requests, whatever is drawn (`buildWitness_succeeds_iff`).
-/

namespace ConfidentialPayment

/-! ## Programs on the machine -/

namespace DrawMachine

variable {α β γ : Type}

theorem ofMachine_ok_bind (a : α) (next : α → DrawMachine β) :
    ofMachine (.ok a) >>= next = next a := rfl

/-- A program of the machine that draws nothing may be run step by step. -/
theorem ofMachine_bind (x : Machine α) (f : α → Machine β) :
    ofMachine (x >>= f) = ofMachine x >>= fun a => ofMachine (f a) := by
  cases x with
  | error stop => rfl
  | ok a => rfl

/-- Computations behind a check need to agree only where it passes. -/
theorem ofMachine_bind_congr {result : Except Error α} {f g : α → DrawMachine β}
    (h : ∀ a, result = .ok a → f a = g a) :
    ofMachine (Machine.ofExcept result) >>= f = ofMachine (Machine.ofExcept result) >>= g := by
  cases result with
  | ok a => exact h a rfl
  | error cause => rfl

/-- Run on the machine, a program draws the same and ends the same. -/
theorem run_ofDrawExcept (program : DrawExcept α) :
    (ofDrawExcept program).run = Machine.ofExcept <$> program.run := rfl

/-- Run on the machine, a program has the same outcome. -/
theorem outcome_ofDrawExcept (program : DrawExcept α) (tape : RandomSource) :
    (ofDrawExcept program).outcome tape = Machine.ofExcept (program.outcome tape) := rfl

theorem ofDrawExcept_pure (a : α) : ofDrawExcept (pure a) = pure a := rfl

theorem ofDrawExcept_liftM (program : Draw α) : ofDrawExcept (liftM program) = liftM program := rfl

/-- A result is the same on the machine. -/
theorem ofDrawExcept_ofExcept (result : Except Error α) :
    ofDrawExcept (.ofExcept result) = ofMachine (Machine.ofExcept result) := by
  cases result with
  | ok a => rfl
  | error cause => rfl

/-- A sequence is run on the machine step by step. -/
theorem ofDrawExcept_bind (program : DrawExcept α) (next : α → DrawExcept β) :
    ofDrawExcept (program >>= next) =
      ofDrawExcept program >>= fun a => ofDrawExcept (next a) := by
  refine ExceptT.ext ?_
  rw [run_ofDrawExcept, ExceptT.run_bind, ExceptT.run_bind, run_ofDrawExcept, map_bind,
    bind_map_left]
  refine bind_congr fun result => ?_
  cases result with
  | ok a => rfl
  | error cause => rfl

/-- Changing a result is the same on the machine. -/
theorem ofDrawExcept_map (f : α → β) (program : DrawExcept α) :
    ofDrawExcept (f <$> program) = f <$> ofDrawExcept program := by
  rw [← bind_pure_comp, ← bind_pure_comp, ofDrawExcept_bind]
  rfl

/-- A traversal is run on the machine entry by entry. -/
theorem ofDrawExcept_mapM (f : α → DrawExcept β) (xs : List α) :
    ofDrawExcept (xs.mapM f) = xs.mapM fun a => ofDrawExcept (f a) := by
  induction xs with
  | nil => rfl
  | cons x xs ih => simp only [List.mapM_cons, ofDrawExcept_bind, ih, ofDrawExcept_pure]

/-- Traversals of matching lists with the same programs are the same. -/
theorem mapM_eq_mapM_of_forall₂ {f : α → DrawMachine γ} {g : β → DrawMachine γ} {as : List α}
    {bs : List β} (h : List.Forall₂ (fun a b => f a = g b) as bs) : as.mapM f = bs.mapM g := by
  induction h with
  | nil => rfl
  | cons hab _ ih => rw [List.mapM_cons, List.mapM_cons, hab, ih]

end DrawMachine

namespace Machine

open DrawMachine Payment

variable {P : Type} {r : Request P}

/-! ## Checks -/

/-- Multiplying the number of inputs by the size of a ring does not overflow. -/
theorem checkRings_eq (hinputs : r.inputs.length ≤ maxInputs) :
    checkRings r = ofExcept r.checkRings := by
  have hmembers : r.inputs.length * Membership.ringSize < UInt64.size :=
    (Nat.mul_le_mul_right _ hinputs).trans_lt (by decide)
  unfold checkRings Request.checkRings
  dsimp only
  rw [mul_eq hmembers, ok_bind]
  split_ifs <;> rfl

/-- The inputs with their numbers and rings are the ring inputs. -/
theorem forall₂_numberedInputs (hrings : r.HasRings) :
    List.Forall₂ (fun (entry : (Coin P × List P) × ℕ) source =>
      r.ringInputs[entry.2]? = some source ∧ entry.1.1 = source.coin ∧ entry.1.2 = source.ring)
      (numberedInputs r) r.ringInputs := by
  have hlength : (numberedInputs r).length = r.ringInputs.length := by
    rw [numberedInputs, List.length_zipIdx, List.length_zip, hrings.length_chunks_ring,
      Nat.min_self, ← hrings.map_coin_ringInputs, List.length_map]
  refine List.forall₂_iff_get.mpr ⟨hlength, fun i hi hi' => ?_⟩
  have hsource := List.getElem?_eq_getElem hi'
  obtain ⟨hcoin, hring, -⟩ := Request.getElem?_ringInputs_eq_some_iff.mp hsource
  obtain ⟨_, hcoin⟩ := List.getElem?_eq_some_iff.mp hcoin
  obtain ⟨_, hring⟩ := List.getElem?_eq_some_iff.mp hring
  simp only [List.get_eq_getElem, numberedInputs, List.getElem_zipIdx, List.getElem_zip,
    Nat.zero_add]
  exact ⟨hsource, hcoin, hring⟩

variable [Suite P] {gens : Generators P}

omit [Suite P] in
/-- A position below the size of a ring has a member, and the member has a ledger number where it is
looked up. -/
theorem exists_member_of_ringInputs (hrings : r.HasRings) {i : ℕ} {source : RingInput P}
    (h : r.ringInputs[i]? = some source) (hlt : source.position < Membership.ringSize) :
    ∃ member number, source.ring[source.position]? = some member ∧
      source.indices[source.position]? = some number ∧
      r.ringIndices[i * Membership.ringSize + source.position]? = some number := by
  obtain ⟨-, hring, hindices, -⟩ := Request.getElem?_ringInputs_eq_some_iff.mp h
  obtain ⟨member, hmember⟩ : ∃ member, source.ring[source.position]? = some member := by
    rw [← length_of_mem_chunks hrings.ring _ (List.mem_of_getElem? hring)] at hlt
    exact ⟨_, List.getElem?_eq_getElem hlt⟩
  obtain ⟨number, hnumber⟩ : ∃ number, source.indices[source.position]? = some number := by
    rw [← length_of_mem_chunks hrings.indices _ (List.mem_of_getElem? hindices)] at hlt
    exact ⟨_, List.getElem?_eq_getElem hlt⟩
  exact ⟨member, number, hmember, hnumber,
    (getElem?_of_chunks (by decide) hindices hlt).symm.trans hnumber⟩

/-- The places where the ledger numbers of members are looked up are words. -/
theorem place_lt {i position : ℕ} (hi : i < maxInputs) (hlt : position < Membership.ringSize) :
    i * Membership.ringSize + position < UInt64.size := by
  change i < 255 at hi
  change position < 8 at hlt
  change i * 8 + position < 18446744073709551616
  omega

/-- Looking a member up is the check of its input: no access is out of bounds, and the place of its
ledger number is a word. -/
theorem findInRing_eq (hinputs : r.inputs.length ≤ maxInputs) (hrings : r.HasRings) {i : ℕ}
    {source : RingInput P} (h : r.ringInputs[i]? = some source) :
    findInRing r i source.coin source.ring =
      ofExcept source.check >>= fun _ => .ok source.position := by
  obtain ⟨hcoin, -, -, hposition⟩ := Request.getElem?_ringInputs_eq_some_iff.mp h
  unfold findInRing RingInput.check
  rw [get_eq hposition, ok_bind]
  by_cases hlt : source.position < Membership.ringSize
  · rw [if_neg (Nat.not_le.mpr hlt), if_neg (Nat.not_le.mpr hlt)]
    obtain ⟨member, number, hmember, hnumber, hplace⟩ := exists_member_of_ringInputs hrings h hlt
    have hword := place_lt ((List.getElem?_eq_some_iff.mp hcoin).1.trans_le hinputs) hlt
    dsimp only
    rw [get_eq hmember, ok_bind, hmember, mul_eq (Nat.lt_of_add_right_lt hword), ok_bind,
      add_eq hword, ok_bind, get_eq hplace, List.getD_eq_getElem?_getD, hnumber]
    by_cases hsame : member = source.coin.commitment
    · rw [if_neg (not_not.mpr hsame), if_pos (congrArg some hsame)]
      rfl
    · rw [if_pos hsame, if_neg fun hsome => hsame (Option.some.inj hsome)]
      rfl
  · rw [if_pos (Nat.le_of_not_lt hlt), if_pos (Nat.le_of_not_lt hlt)]
    rfl

/-! ## Inputs and outputs -/

/-- Shielding the input at a place takes its ring and its indices from within the request. -/
theorem shieldInput_eq (hinputs : r.inputs.length ≤ maxInputs) (hrings : r.HasRings) {i : ℕ}
    {source : RingInput P} {k : InputKey P} (h : r.ringInputs[i]? = some source) :
    shieldInput gens k r i source.coin source.ring =
      ofDrawExcept (Payment.shieldInput gens k source) := by
  unfold shieldInput Payment.shieldInput
  rw [findInRing_eq hinputs hrings h]
  simp only [ofMachine_bind, bind_assoc, ofMachine_ok_bind, ofDrawExcept_bind,
    ofDrawExcept_ofExcept, ofDrawExcept_liftM]
  rfl

/-- Shielding all inputs with their numbers is shielding them with their rings. -/
theorem mapM_numberedInputs (hinputs : r.inputs.length ≤ maxInputs) (hrings : r.HasRings)
    (k : InputKey P) :
    ((numberedInputs r).mapM fun ((coin, ring), i) => shieldInput gens k r i coin ring) =
      ofDrawExcept (r.ringInputs.mapM (Payment.shieldInput gens k)) := by
  rw [ofDrawExcept_mapM]
  refine mapM_eq_mapM_of_forall₂ ((forall₂_numberedInputs hrings).imp ?_)
  rintro ⟨⟨_, _⟩, i⟩ source ⟨h, rfl, rfl⟩
  exact shieldInput_eq hinputs hrings h

/-- The last output gets what remains of the blinding, and every other one a blinding of its own. -/
theorem drawBlinding_eq {count i : ℕ} (remaining : Scalar) (h : i + 1 < UInt64.size) :
    drawBlinding count i remaining = if i + 1 = count then pure (remaining, remaining)
      else do
        let blinding ← RandomSource.scalar
        return (blinding, remaining - blinding) := by
  unfold drawBlinding
  rw [add_eq h, ofMachine_ok_bind]

/-- The last output is the one that no output follows, so all numbers are words if the last is. -/
theorem shieldOutputs_eq {count i : ℕ} {targets : List (OutputCoin P × P)} (remaining : Scalar)
    (hcount : i + targets.length = count) (hword : count < UInt64.size) :
    shieldOutputs gens count i remaining targets =
      liftM (Payment.shieldOutputs gens remaining targets) := by
  induction targets generalizing i remaining with
  | nil => rfl
  | cons target targets ih =>
    obtain ⟨output, transmissionKey⟩ := target
    rw [List.length_cons] at hcount
    have hrest (remaining : Scalar) := ih (i := i + 1) remaining (by omega)
    unfold shieldOutputs
    rw [drawBlinding_eq remaining (by omega)]
    cases targets with
    | nil =>
      rw [if_pos (by simpa using hcount)]
      rfl
    | cons next targets =>
      rw [if_neg (by rw [List.length_cons] at hcount; omega)]
      simp only [hrest, bind_assoc, pure_bind]
      rfl

/-! ## Witnesses -/

/-- A private witness is built on the machine without a fault, and with the same outcome. -/
theorem buildShielded_eq {outputs : List (OutputCoin P)} (hinputs : r.inputs.length ≤ maxInputs)
    (hpayees : r.payees.length ≤ maxOutputs) :
    buildShielded gens r outputs = ofDrawExcept (ShieldedWitness.build gens r outputs) := by
  unfold buildShielded ShieldedWitness.build
  rw [checkRings_eq hinputs, ofDrawExcept_bind, ofDrawExcept_ofExcept]
  refine ofMachine_bind_congr fun _ hcheck => ?_
  have hrings := Request.checkRings_eq_ok_iff.mp hcheck
  have hword : (outputs.zip (r.payees.map Payee.transmissionKey)).length < UInt64.size := by
    rw [List.length_zip, List.length_map]
    exact ((Nat.min_le_right _ _).trans hpayees).trans_lt (by decide)
  simp only [ofDrawExcept_bind, ofDrawExcept_ofExcept, ofDrawExcept_liftM, ofDrawExcept_pure,
    mapM_numberedInputs hinputs hrings, shieldOutputs_eq _ (Nat.zero_add _) hword]

/-- A witness is built on the machine without a fault, whatever the request, and with the same
outcome. -/
theorem buildWitness_eq (gens : Generators P) (r : Request P) :
    buildWitness gens r = ofDrawExcept (Witness.ofRequest gens r) := by
  unfold buildWitness Witness.ofRequest
  rw [ofDrawExcept_bind, ofDrawExcept_ofExcept]
  refine ofMachine_bind_congr fun _ hbalance => ?_
  obtain ⟨-, -, hinputs, hpayees, -⟩ := Request.checkBalance_eq_ok_iff.mp hbalance
  rw [ofDrawExcept_bind]
  refine bind_congr fun outputs => ?_
  rw [buildShielded_eq hinputs hpayees]
  cases r.isPrivate with
  | true => rw [if_pos rfl, if_pos rfl, ofDrawExcept_map]
  | false =>
    rw [if_neg Bool.false_ne_true, if_neg Bool.false_ne_true, ofDrawExcept_bind,
      ofDrawExcept_mapM]
    rfl

/-- The witness builder never faults. Whatever is drawn, it makes a witness of the payable requests
and refuses all others. -/
theorem buildWitness_succeeds_iff (gens : Generators P) (r : Request P) (tape : RandomSource) :
    (∀ f, (buildWitness gens r).outcome tape ≠ fault f) ∧
      (buildWitness gens r).outcome tape = ofExcept ((Witness.ofRequest gens r).outcome tape) ∧
      ((∃ w, (Witness.ofRequest gens r).outcome tape = .ok w) ↔ r.IsPayable) := by
  rw [buildWitness_eq, outcome_ofDrawExcept]
  refine ⟨ofExcept_ne_fault _, rfl, ?_⟩
  simp only [← Request.isComplete_iff, DrawExcept.outcome_eq_ok_iff]
  constructor
  · rintro ⟨w, rest, hrun⟩
    exact Request.isComplete_of_ofRequest hrun
  · intro h
    obtain ⟨w, rest, hrun, -⟩ := Witness.ofRequest_ensures gens h tape
    exact ⟨w, rest, hrun⟩

end Machine

end ConfidentialPayment
