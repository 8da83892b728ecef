import ConfidentialPayment.Proofs.Payment.Witness

/-!
# ConfidentialPayment.Proofs.Payment.Payable

Which requests make witnesses.

`Request.IsPayable` says in terms of the request alone what a sender has to get right: the numbers
of coins and payees, the sums as integers, the messages, and for a private payment the rings and the
amounts. It comes to the same as passing every check (`Request.isComplete_iff`), and a request that
makes a witness has passed them all (`Request.isComplete_of_ofRequest`), so that it is decided
before anything is drawn.
-/

namespace ConfidentialPayment.Payment

variable {P : Type} [Suite P] {gens : Generators P} {r : Request P}

namespace Request

/-- The lists of rings have eight entries and one position for every input, which has its coin
there, and every output is worth something. -/
structure IsHideable (r : Request P) : Prop where
  ring : r.ring.length = 8 * r.inputs.length
  ringIndices : r.ringIndices.length = 8 * r.inputs.length
  positions : r.positions.length = r.inputs.length
  members : ∀ i coin position, r.inputs[i]? = some coin → r.positions[i]? = some position →
    position < 8 ∧ r.ring[8 * i + position]? = some coin.commitment
  amounts : ∀ payee ∈ r.payees, 0 < payee.amount.toNat

/-- A well-formed request: some coins and some payees, not too many of either, amounts that balance
as integers, short messages, and rings to hide in if the payment is private. -/
structure IsPayable (r : Request P) : Prop where
  inputs : 1 ≤ r.inputs.length ∧ r.inputs.length ≤ 255
  payees : 1 ≤ r.payees.length ∧ r.payees.length ≤ 32
  spent : totalValue r.inputs < 2 ^ 64
  balance :
    totalValue r.inputs = (r.payees.map fun payee => payee.amount.toNat).sum + r.fee.toNat
  messages : ∀ payee ∈ r.payees, payee.message.length ≤ 255
  hideable : r.isPrivate = true → r.IsHideable

/-! ## The checks -/

omit [Suite P] in
/-- Rings fit the inputs if there are eight members and eight indices for each, and one position. -/
theorem hasRings_iff : r.HasRings ↔ r.ring.length = 8 * r.inputs.length ∧
    r.ringIndices.length = 8 * r.inputs.length ∧ r.positions.length = r.inputs.length := by
  rw [Nat.mul_comm 8]
  exact ⟨fun h => ⟨h.ring, h.indices, h.positions⟩, fun h => ⟨h.1, h.2.1, h.2.2⟩⟩

/-- The rings are cut out of one list, so the member at a position of ring `i` is found in the list
behind the `8 * i` members of the rings before it. -/
theorem HasRings.forall_check_iff (h : r.HasRings) :
    (∀ input ∈ r.ringInputs, input.check = .ok ()) ↔
      ∀ i coin position, r.inputs[i]? = some coin → r.positions[i]? = some position →
        position < 8 ∧ r.ring[8 * i + position]? = some coin.commitment := by
  constructor
  · intro hchecks i coin position hcoin hposition
    obtain ⟨hi, -⟩ := List.getElem?_eq_some_iff.mp hcoin
    have hring := List.getElem?_eq_getElem (h.length_chunks_ring ▸ hi)
    have hindices := List.getElem?_eq_getElem (h.length_chunks_indices ▸ hi)
    have hinput : r.ringInputs[i]? = some ⟨coin, _, _, position⟩ :=
      getElem?_ringInputs_eq_some_iff.mpr ⟨hcoin, hring, hindices, hposition⟩
    obtain ⟨hlt, hmember⟩ :=
      RingInput.check_eq_ok_iff.mp (hchecks _ (List.mem_of_getElem? hinput))
    rw [getElem?_of_chunks (by decide) hring hlt] at hmember
    exact ⟨hlt, Nat.mul_comm i 8 ▸ hmember⟩
  · intro hmembers input hinput
    obtain ⟨i, hi⟩ := List.mem_iff_getElem?.mp hinput
    obtain ⟨hcoin, hring, -, hposition⟩ := getElem?_ringInputs_eq_some_iff.mp hi
    obtain ⟨hlt, hmember⟩ := hmembers i _ _ hcoin hposition
    rw [RingInput.check_eq_ok_iff, getElem?_of_chunks (by decide) hring hlt]
    exact ⟨hlt, Nat.mul_comm 8 i ▸ hmember⟩

/-- A request is complete exactly if it is payable. -/
theorem isComplete_iff : r.IsComplete ↔ r.IsPayable := by
  constructor
  · intro h
    obtain ⟨hinputs, hpayees, hmaxInputs, hmaxOutputs, hspent, hbalance⟩ :=
      checkBalance_eq_ok_iff.mp h.balance
    refine ⟨⟨List.length_pos_iff.mpr hinputs, hmaxInputs⟩,
      ⟨List.length_pos_iff.mpr hpayees, hmaxOutputs⟩, hspent, hbalance, h.messages, ?_⟩
    intro hmode
    obtain ⟨hring, hindices, hpositions⟩ := hasRings_iff.mp (h.rings hmode)
    exact ⟨hring, hindices, hpositions, (h.rings hmode).forall_check_iff.mp (h.members hmode),
      fun payee hpayee => UInt64.pos_iff_ne_zero.mpr (h.amounts hmode payee hpayee)⟩
  · intro h
    have hrings (hmode : r.isPrivate = true) : r.HasRings :=
      have hhideable := h.hideable hmode
      hasRings_iff.mpr ⟨hhideable.ring, hhideable.ringIndices, hhideable.positions⟩
    exact
      { balance := checkBalance_eq_ok_iff.mpr ⟨List.length_pos_iff.mp h.inputs.1,
          List.length_pos_iff.mp h.payees.1, h.inputs.2, h.payees.2, h.spent, h.balance⟩
        messages := h.messages
        rings := hrings
        members := fun hmode => (hrings hmode).forall_check_iff.mpr (h.hideable hmode).members
        amounts := fun hmode payee hpayee =>
          UInt64.pos_iff_ne_zero.mp ((h.hideable hmode).amounts payee hpayee) }

end Request

/-! ## Requests behind witnesses -/

/-- An input that is shielded has passed its check. -/
theorem RingInput.check_of_shieldInput {k : InputKey P} {source : RingInput P}
    {input : ShieldedInput P} {tape rest : RandomSource}
    (h : (shieldInput gens k source).Gives tape input rest) : source.check = .ok () := by
  unfold shieldInput at h
  simp only [DrawExcept.gives_bind, DrawExcept.gives_ofExcept] at h
  obtain ⟨⟨⟩, _, ⟨hcheck, -⟩, -⟩ := h
  exact hcheck

/-- In a witness that is built all inputs have passed their checks. -/
theorem ShieldedWitness.forall_check_of_build {outputs : List (OutputCoin P)}
    {w : ShieldedWitness P} {tape rest : RandomSource}
    (h : (build gens r outputs).Gives tape w rest) :
    ∀ source ∈ r.ringInputs, source.check = .ok () := by
  unfold build at h
  simp only [DrawExcept.gives_bind] at h
  obtain ⟨⟨⟩, _, -, k, _, -, inputs, _, hinputs, -⟩ := h
  intro source hsource
  obtain ⟨i, hi⟩ := List.mem_iff_getElem?.mp hsource
  obtain ⟨input, -, _, _, hinput⟩ :=
    exists_getElem?_of_forall₂ (DrawExcept.Gives.forall₂_of_mapM hinputs) hi
  exact RingInput.check_of_shieldInput hinput

/-- A request that makes a witness has passed every check. -/
theorem Request.isComplete_of_ofRequest {w : Witness P} {tape rest : RandomSource}
    (h : (Witness.ofRequest gens r).Gives tape w rest) : r.IsComplete := by
  obtain ⟨hbalance, hrepresents⟩ := Witness.represents_of_ofRequest h
  unfold Witness.ofRequest at h
  simp only [DrawExcept.gives_bind] at h
  obtain ⟨⟨⟩, _, -, outputs, middle, houtputs, h⟩ := h
  refine ⟨hbalance, ?messages, ?rings, ?members, ?amounts⟩
  case messages =>
    intro payee hpayee
    obtain ⟨i, hi⟩ := List.mem_iff_getElem?.mp hpayee
    obtain ⟨output, -, _, _, houtput⟩ :=
      exists_getElem?_of_forall₂ (DrawExcept.Gives.forall₂_of_mapM houtputs) hi
    rw [← (OutputCoin.pays_of_forPayee houtput).info]
    exact (OutputCoin.isPlain_of_forPayee houtput).info
  all_goals
    intro hmode
    rw [if_pos hmode, DrawExcept.gives_map] at h
    obtain ⟨w, hw, rfl⟩ := h
  case rings => exact hrepresents.2.rings
  case members => exact ShieldedWitness.forall_check_of_build hw
  case amounts =>
    have hvalues := w.range.values_pos
    rw [hrepresents.2.rangeValues, hrepresents.2.amounts] at hvalues
    exact fun payee hpayee => hvalues _ (List.mem_map_of_mem hpayee)

end ConfidentialPayment.Payment
