import ConfidentialPayment.Proofs.Payment.Completeness
import ConfidentialPayment.Proofs.Payment.Encoding
import ConfidentialPayment.Ristretto

/-!
# ConfidentialPayment.Proofs.Payment.RoundTrip

Payments survive being written and read.

1. `Proof.LengthsFit` names every number that the encoding of a payment writes as a length or as a
   count, and says that it fits the bytes that it is written in. Payments that can be written have
   it (`Proof.IsWritable.lengthsFit`).
2. What a prover publishes can be written (`Witness.isWritable_of_prove`): the counts are those of
   the request, which `Request.checkBalance` bounds, proofs are well formed, and outputs have short
   infos and ciphertexts of one length.
3. What a decoder accepts can be written as well, so both are read back as they are
   (`Proof.reads_back`).
-/

namespace ConfidentialPayment.Payment

variable {P : Type} [Suite P]

/-! ## Lengths -/

/-- Every count and every length that the encoding of a payment writes fits its two bytes or its
one byte. -/
structure Proof.LengthsFit (proof : Proof P) : Prop where
  counts : ∀ count ∈ [proof.memberships.length, proof.hiddenSerials.length,
    proof.revealedSerials.length, proof.inputs.length, proof.outputs.length,
    proof.outputValues.length, proof.outputDerivators.length, proof.outputShards.length,
    proof.inputValues.length, proof.inputDerivators.length], count < 65536
  items : ∀ item ∈ proof.memberships.map Membership.Proof.toBytes ++
    proof.hiddenSerials.map SerialNumber.Hidden.Proof.toBytes ++
    proof.revealedSerials.map SerialNumber.Revealed.Proof.toBytes ++
    proof.range.toList.map RangeProof.Proof.toBytes ++ proof.inputs.map Coin.toBytes ++
    proof.outputs.map OutputCoin.toBytes, item.length < 65536
  ciphertexts : ∀ output ∈ proof.outputs, output.ciphertext.toBytes.length < 65536
  infos : ∀ coin ∈ proof.inputs ++ proof.outputs.map OutputCoin.coin, coin.info.length < 256
  rangeCounts : ∀ range ∈ proof.range, range.commitments.length < 256 ∧
    range.argument.rounds.length < 256

/-- Nothing that is written with a payment is cut off. -/
theorem Proof.IsWritable.lengthsFit [LawfulEncoding P] {proof : Proof P} (h : proof.IsWritable) :
    proof.LengthsFit where
  counts := by
    simp only [List.forall_mem_cons]
    exact ⟨h.memberships.1, h.hiddenSerials, h.revealedSerials, h.inputs.1, h.outputs.1,
      h.outputValues, h.outputDerivators, h.outputShards, h.inputValues, h.inputDerivators,
      List.forall_mem_nil _⟩
  items := by
    simp only [List.forall_mem_append, List.forall_mem_map, Option.mem_toList]
    exact ⟨⟨⟨⟨⟨fun m hm => Membership.length_toBytes_lt (h.memberships.2 m hm),
      fun s _ => SerialNumber.Hidden.length_toBytes_lt s⟩,
      fun s _ => SerialNumber.Revealed.length_toBytes_lt s⟩,
      fun range hrange => RangeProof.length_toBytes_lt (h.range range hrange)⟩,
      fun coin hcoin => Coin.spell_default coin ▸ Coin.length_spell_lt (h.inputs.2 coin hcoin) {}⟩,
      h.outputLengths⟩
  ciphertexts output houtput := (h.outputs.2 output houtput).ciphertext
  infos := by
    simp only [List.forall_mem_append, List.forall_mem_map]
    exact ⟨fun coin hcoin => Nat.lt_succ_of_le (h.inputs.2 coin hcoin),
      fun output houtput => Nat.lt_succ_of_le (h.outputs.2 output houtput).info⟩
  rangeCounts range hrange := by
    have hwellFormed := h.range range hrange
    simp only [RangeProof.Proof.isWellFormed, InnerProduct.Proof.isWellFormed, Bool.and_eq_true,
      decide_eq_true_eq] at hwellFormed
    obtain ⟨⟨⟨-, hcount⟩, hrounds⟩, -⟩ := hwellFormed
    exact ⟨Nat.lt_of_le_of_lt hcount (by decide), Nat.lt_trans hrounds (by decide)⟩

/-- Few short items take few bytes. -/
theorem length_writeItems_lt {items : List Bytes} (hcount : items.length < 65536)
    (hitems : ∀ item ∈ items, item.length < 65536) : (writeItems items).length < 2 ^ 33 := by
  have hsum : (items.map fun item => 2 + item.length).sum ≤ items.length * 65537 := by
    refine (List.sum_le_card_nsmul _ 65537 ?_).trans_eq (by simp)
    refine List.forall_mem_map.mpr fun item hitem => ?_
    have := hitems item hitem
    omega
  rw [length_writeItems]
  omega

section Memory

variable [LawfulEncoding P]

/-- A list of points takes two bytes for their number and 32 for each of them. -/
theorem length_writePoints (ps : List P) : (writePoints ps).length = 2 + ps.length * 32 := by
  simp [writePoints, Writer.nat16, pointLength]

/-- A point that may be missing takes no more than its length and its bytes. -/
theorem length_writeOptionalPoint_le (p? : Option P) : (writeOptionalPoint p?).length ≤ 34 := by
  cases p? with
  | none => exact Nat.le_add_right 2 32
  | some p =>
    simp [writeOptionalPoint, writeItem, Writer.nat16, LawfulEncoding.length_encode, pointLength]

/-- A payment that can be written fits into a memory whose addresses are words. -/
theorem Proof.IsWritable.length_toBytes_lt {proof : Proof P} (h : proof.IsWritable) :
    proof.toBytes.length < UInt64.size := by
  have hitems := h.lengthsFit.items
  simp only [List.forall_mem_append] at hitems
  obtain ⟨⟨⟨⟨⟨hmemberships, hhidden⟩, hrevealed⟩, hrange⟩, hinputs⟩, houtputs⟩ := hitems
  have hmemberships := length_writeItems_lt (by simpa using h.memberships.1) hmemberships
  have hhidden := length_writeItems_lt (by simpa using h.hiddenSerials) hhidden
  have hrevealed := length_writeItems_lt (by simpa using h.revealedSerials) hrevealed
  have hinputs := length_writeItems_lt (by simpa using h.inputs.1) hinputs
  have houtputs := length_writeItems_lt (by simpa using h.outputs.1) houtputs
  have hrange : ((proof.range.map RangeProof.Proof.toBytes).getD []).length < 65536 := by
    cases hproof : proof.range with
    | none => exact Nat.zero_lt_succ _
    | some range => exact hrange _ (by simp [hproof])
  have hindices : (proof.ringIndices.flatMap Writer.uint64).length < 2 ^ 33 := by
    have := h.memberships.1
    simp only [List.length_flatMap, Coin.length_uint64, List.map_const', List.sum_replicate,
      h.ringIndices, Membership.ringSize, Membership.digitCount, Coin.valueLength, smul_eq_mul]
    omega
  have hkey := length_writeOptionalPoint_le proof.key
  have hshard := length_writeOptionalPoint_le proof.inputShard
  have houtputValues := h.outputValues
  have houtputDerivators := h.outputDerivators
  have houtputShards := h.outputShards
  have hinputValues := h.inputValues
  have hinputDerivators := h.inputDerivators
  simp only [toBytes, List.length_append, writeItem, Writer.nat16, Bytes.length_ofNatBE,
    length_writePoints, UInt64.size]
  omega

end Memory

/-! ## What provers publish -/

section Proved

variable {gens : Generators P} {table : GeneratorTable P} {r : Request P}

omit [Suite P] in
/-- There are as many amounts as payees, and so few that two bytes count them. -/
theorem length_lt_of_amounts {amounts : List UInt64} (hbalance : r.checkBalance = .ok ())
    (h : amounts = r.payees.map Payee.amount) : amounts.length < 65536 := by
  rw [h, List.length_map]
  exact Nat.lt_of_le_of_lt (Request.checkBalance_eq_ok hbalance).2.2.1 (by decide)

omit [Suite P] in
/-- A request that balances has so few inputs that two bytes count them. -/
theorem length_inputs_lt (hbalance : r.checkBalance = .ok ()) : r.inputs.length < 65536 :=
  Nat.lt_of_le_of_lt (Request.length_inputs_le_of_checkBalance hbalance) (by decide)

/-- Before it is encrypted, no output of a witness has a ciphertext or a long info. -/
theorem Witness.isPlain_of_ofRequest {w : Witness P} {tape rest : RandomSource}
    (h : (ofRequest gens r).Gives tape w rest) : ∀ output ∈ w.outputs, output.IsPlain := by
  have hmode := (represents_of_ofRequest h).2
  cases w with
  | transparent w =>
    unfold ofRequest at h
    rw [hmode.1] at h
    simp only [Bool.false_eq_true, if_false, DrawExcept.gives_bind, DrawExcept.gives_pure] at h
    obtain ⟨⟨⟩, _, -, outputs, _, houtputs, committed, _, hcommitted, hsame, -⟩ := h
    obtain rfl := transparent.inj hsame
    intro output houtput
    obtain ⟨source, hsource, _, _, hcommit⟩ := hcommitted.exists_of_mem_mapM output houtput
    obtain ⟨payee, -, _, _, hpayee⟩ := houtputs.exists_of_mem_mapM source hsource
    obtain ⟨hinfo, hciphertext⟩ := OutputCoin.isPlain_of_forPayee hpayee
    obtain rfl := hcommit.eq_run
    exact ⟨hinfo, hciphertext⟩
  | shielded w =>
    refine List.forall_mem_map.mpr fun o ho => ?_
    obtain ⟨payee, -, hgoesTo⟩ := exists_mem_of_forall₂ (forall₂_goesTo_of_ofRequest h) o ho
    exact hgoesTo.plain

variable [LawfulEncoding P]

/-- A transparent payment that is proved can be written. -/
theorem TransparentWitness.isWritable_prove {w : TransparentWitness P}
    (hw : w.Represents gens r) (hbalance : r.checkBalance = .ok ())
    (hinfo : ∀ coin ∈ r.inputs, coin.info.length ≤ Coin.maxInfoLength)
    (hplain : ∀ output ∈ w.outputs, output.IsPlain) (tape : RandomSource) :
    ((w.prove gens).run tape).1.IsWritable := by
  have hinputs : w.inputs.length < 65536 := hw.inputs ▸ length_inputs_lt hbalance
  have houtputs : w.outputs.length < 65536 :=
    List.length_map _ ▸ length_lt_of_amounts hbalance hw.amounts
  have hserials : ((w.inputs.mapM (w.proveSerial gens)).run tape).1.length = w.inputs.length :=
    (Draw.forall₂_mapM (S := fun _ _ => True) (fun _ _ _ => trivial) tape).length_eq.symm
  have hprove : ((w.prove gens).run tape).1 =
      { revealedSerials := ((w.inputs.mapM (w.proveSerial gens)).run tape).1
        inputs := w.inputs, outputs := w.outputs } := rfl
  rw [hprove]
  exact
    { memberships := ⟨Nat.zero_lt_succ _, List.forall_mem_nil _⟩
      hiddenSerials := Nat.zero_lt_succ _
      revealedSerials := hserials ▸ hinputs
      range := nofun
      inputs := ⟨hinputs, hw.inputs ▸ hinfo⟩
      outputs := ⟨houtputs, fun output houtput => (hplain output houtput).isWritable.1⟩
      outputLengths := fun output houtput => (hplain output houtput).isWritable.2
      outputValues := Nat.zero_lt_succ _
      outputDerivators := Nat.zero_lt_succ _
      outputShards := Nat.zero_lt_succ _
      inputValues := Nat.zero_lt_succ _
      inputDerivators := Nat.zero_lt_succ _
      ringIndices := rfl }

/-- A private payment that is proved can be written. -/
theorem ShieldedWitness.isWritable_of_prove {w : ShieldedWitness P}
    (hw : w.Represents gens r) (hbalance : r.checkBalance = .ok ())
    (hplain : ∀ o ∈ w.outputs, o.output.IsPlain) {proof : Proof P} {tape rest : RandomSource}
    (h : (w.prove gens table).Gives tape proof rest) : proof.IsWritable := by
  have hcount : w.inputs.length = r.inputs.length := by
    rw [← hw.map_coin_inputs, List.length_map]
  have hinputs : w.inputs.length < 65536 := hcount ▸ length_inputs_lt hbalance
  have houtputs : w.outputs.length < 65536 :=
    List.length_map _ ▸ length_lt_of_amounts hbalance hw.amounts
  obtain ⟨memberships, hiddenSerials, range, outputs, rfl, hmemberships, hserials,
    ⟨_, _, hrange⟩, hencrypted⟩ := w.assemble_of_prove h
  have hcountMemberships := hmemberships.length_eq
  have hcountSerials := hserials.length_eq
  have hcountOutputs := hencrypted.length_eq
  have hwritable : ∀ output ∈ outputs, output.IsWritable ∧ output.toBytes.length < 65536 := by
    intro output houtput
    obtain ⟨o, ho, hseal⟩ := exists_mem_of_forall₂ hencrypted output houtput
    exact hseal.isWritable (hplain o ho).info
  exact
    { memberships := by
        refine ⟨hcountMemberships ▸ hinputs, fun membership hmem => ?_⟩
        obtain ⟨input, -, _, rfl⟩ := exists_mem_of_forall₂ hmemberships membership hmem
        exact input.membership.isWellFormed_prove gens _
      hiddenSerials := hcountSerials ▸ hinputs
      revealedSerials := Nat.zero_lt_succ _
      range := by
        rintro _ ⟨⟩
        exact RangeProof.Witness.isWellFormed_of_prove hrange
      inputs := by
        refine ⟨by simpa [assemble] using hinputs, List.forall_mem_map.mpr fun input _ => ?_⟩
        exact Nat.zero_le _
      outputs := ⟨hcountOutputs ▸ houtputs, fun output houtput => (hwritable output houtput).1⟩
      outputLengths := fun output houtput => (hwritable output houtput).2
      outputValues := by simpa [assemble] using houtputs
      outputDerivators := by simpa [assemble] using houtputs
      outputShards := by simpa [assemble] using houtputs
      inputValues := by simpa [assemble] using hinputs
      inputDerivators := by simpa [assemble] using hinputs
      ringIndices := by
        show w.ringIndices.length = memberships.length * Membership.ringSize
        rw [hw.ringIndices, hw.rings.indices, ← hcountMemberships, hcount] }

end Proved

/-! ## Both ways -/

section Arises

variable {gens : Generators P} {table : GeneratorTable P} {proof : Proof P}

/-- Where payments come from: from a prover, who has a witness of a request for coins with infos
that can be set, or from a decoder. -/
inductive Proof.Arises (gens : Generators P) (table : GeneratorTable P) (proof : Proof P) : Prop
  | proved {r : Request P} {w : Witness P} {tape rest tape' rest' : RandomSource}
      (hinfo : ∀ coin ∈ r.inputs, coin.info.length ≤ Coin.maxInfoLength)
      (hw : (Witness.ofRequest gens r).Gives tape w rest)
      (hproof : (w.prove gens table).Gives tape' proof rest')
  | read {bs : Bytes} (hread : Proof.ofBytes bs = .ok proof)

variable [LawfulEncoding P]

/-- Whatever a prover publishes or a decoder accepts can be written. -/
theorem Proof.Arises.isWritable (h : proof.Arises gens table) : proof.IsWritable := by
  cases h with
  | @proved r w _ _ _ _ hinfo hw hproof =>
    obtain ⟨hbalance, hrepresents⟩ := Witness.represents_of_ofRequest hw
    have hplain := Witness.isPlain_of_ofRequest hw
    cases w with
    | transparent w =>
      obtain rfl := hproof.eq_run
      exact w.isWritable_prove hrepresents.2 hbalance hinfo hplain _
    | shielded w =>
      exact w.isWritable_of_prove hrepresents.2 hbalance (List.forall_mem_map.mp hplain) hproof
  | read hread => exact (Proof.ofBytes_eq_ok_iff.mp hread).1

/-- Whatever a prover publishes or a decoder accepts is read back as it is: none of its lengths is
cut off when it is written, and its digest stays the same. -/
theorem Proof.Arises.reads_back (h : proof.Arises gens table) :
    proof.LengthsFit ∧ Proof.ofBytes proof.toBytes = .ok proof ∧
      (Proof.ofBytes (P := P) proof.toBytes).map Proof.digest = .ok proof.digest := by
  have hread := Proof.ofBytes_toBytes h.isWritable
  refine ⟨h.isWritable.lengthsFit, hread, ?_⟩
  rw [hread]
  rfl

end Arises

/-! ## An example -/

/-- Proving a private payment succeeds if the table is large enough for its outputs. -/
theorem ShieldedWitness.prove_ensures_true (gens : Generators P) {table : GeneratorTable P}
    {w : ShieldedWitness P} (hcapacity : w.range.vectorLength ≤ table.capacity) :
    (w.prove gens table).Ensures fun _ => True := by
  refine (DrawExcept.Ensures.mapM (S := fun _ _ => True) fun input _ =>
    .lift fun _ => trivial).bind fun memberships _ => ?_
  refine (DrawExcept.Ensures.mapM (S := fun _ _ => True) fun input _ =>
    .lift fun _ => trivial).bind fun hiddenSerials _ => ?_
  refine (w.range.prove_ensures_isWellFormed gens table hcapacity).bind fun range _ => ?_
  refine (DrawExcept.Ensures.mapM fun o _ =>
    o.output.encrypt_ensures o.transmissionKey).bind fun outputs _ => ?_
  exact .pure trivial

/-- A complete request leads to a payment if the table is large enough for its outputs. -/
theorem Request.IsComplete.exists_proof (gens : Generators P) {table : GeneratorTable P}
    {r : Request P} (hr : r.IsComplete)
    (hcapacity : RangeProof.vectorLength r.payees.length ≤ table.capacity) (tape : RandomSource) :
    ∃ w rest proof rest', (Witness.ofRequest gens r).Gives tape w rest ∧
      (w.prove gens table).Gives rest proof rest' := by
  obtain ⟨w, rest, hw, hrepresents⟩ := Witness.ofRequest_ensures gens hr tape
  cases w with
  | transparent w => exact ⟨_, rest, _, _, hw, DrawExcept.gives_lift.mpr rfl⟩
  | shielded w =>
    have hneeded : w.range.vectorLength ≤ table.capacity := by
      rw [RangeProof.Witness.vectorLength, hrepresents.2.rangeValues, hrepresents.2.amounts,
        List.length_map]
      exact hcapacity
    obtain ⟨proof, rest', hproof, -⟩ := w.prove_ensures_true gens hneeded rest
    exact ⟨_, rest, proof, rest', hw, hproof⟩

/-- Both payments of the two coins, the transparent and the private one, are read back. -/
theorem Proof.Arises.reads_back_ristretto :
    let gens := Generators.standard Ristretto.Point
    let table := GeneratorTable.neutral Ristretto.Point 128
    let tape : RandomSource := ⟨fun _ => .replicate 64 0, 0⟩
    let readsBack (r : Request Ristretto.Point) : Prop :=
      ∃ w rest proof rest', (Witness.ofRequest gens r).Gives tape w rest ∧
        (w.prove gens table).Gives rest proof rest' ∧ proof.LengthsFit ∧
        Proof.ofBytes proof.toBytes = .ok proof
    readsBack (.twoCoins gens false) ∧ readsBack (.twoCoins gens true) := by
  intro gens table tape readsBack
  have hcapacity : RangeProof.vectorLength 2 ≤ table.capacity := by
    rw [GeneratorTable.capacity_neutral]
    decide
  have hread (isPrivate : Bool) : readsBack (.twoCoins gens isPrivate) := by
    obtain ⟨w, rest, proof, rest', hw, hproof⟩ :=
      (Request.isComplete_twoCoins gens isPrivate).exists_proof gens hcapacity tape
    obtain ⟨hfits, hread, -⟩ :=
      reads_back (.proved (Request.length_info_twoCoins gens isPrivate) hw hproof)
    exact ⟨w, rest, proof, rest', hw, hproof, hfits, hread⟩
  exact ⟨hread false, hread true⟩

end ConfidentialPayment.Payment
