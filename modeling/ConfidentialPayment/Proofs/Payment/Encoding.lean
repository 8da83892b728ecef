import Mathlib.Algebra.Module.Basic
import ConfidentialPayment.Payment.Encoding
import ConfidentialPayment.Proofs.Coin.Encoding

/-!
# ConfidentialPayment.Proofs.Payment.Encoding

The strings that decoders of payments accept.

1. Lists of items, of points and of indices have a law each. An item whose content has one encoding
   has one spelling; the items of coins have the spellings of the coins.
2. A `Spelling` of a payment has a spelling for every coin. A decoder accepts a string exactly if it
   is a spelling of a payment that can be written without loss (`Proof.ofBytes_eq_ok_iff`), so a
   payment that can be written reads back (`Proof.ofBytes_toBytes`).
3. As with coins, the encoding is the only spelling of its length (`Proof.length_spell`,
   `Proof.spell_eq_toBytes_iff`).
-/

namespace ConfidentialPayment.Payment

open Reader

/-! ## Items -/

section Items

variable {α ι : Type} {F : α → Prop} {write : α → Bytes} {decode : Bytes → Except Error α}

/-- An item stands behind its length in two bytes. -/
theorem recognizes_readItem (field : String) :
    Recognizes (readItem field) fun item bs => item.length < 65536 ∧ bs = writeItem item := by
  refine ((recognizes_nat16 field).andThen fun _ => recognizes_bytes field _).congr
    fun item bs => ?_
  simp [writeItem]

/-- Items are the strings of their contents behind their number. -/
theorem recognizes_readItems (field : String) (decode : Bytes → Except Error α) :
    Recognizes (readItems field decode) fun as bs => as.length < 65536 ∧
      ∃ items, List.Forall₂ (fun a item => decode item = .ok a ∧ item.length < 65536) as items ∧
        bs = writeItems items := by
  have hitem : Recognizes (do Reader.within field (decode (← readItem field))) fun a bs =>
      ∃ item, (decode item = .ok a ∧ item.length < 65536) ∧ bs = writeItem item := by
    refine ((recognizes_readItem field).andThen fun item =>
      recognizes_within field (decode item)).congr fun a bs => ?_
    simp only [and_assoc, exists_eq_left, and_left_comm, exists_and_left, List.append_nil]
  refine ((recognizes_nat16 field).andThen fun count => recognizes_repeated hitem count).congr
    fun as bs => ?_
  simp only [strings_exists_iff]
  constructor
  · rintro ⟨_, _, _, ⟨hcount, rfl⟩, ⟨rfl, items, hitems, rfl⟩, rfl⟩
    exact ⟨hcount, items, hitems, by rw [writeItems, hitems.length_eq]⟩
  · rintro ⟨hcount, items, hitems, rfl⟩
    exact ⟨_, _, _, ⟨hcount, rfl⟩, ⟨rfl, items, hitems, rfl⟩, by rw [writeItems, hitems.length_eq]⟩

/-- Where every content has one encoding, so have the items. -/
theorem recognizes_readItems_exact (field : String)
    (hdecode : ∀ {bs a}, decode bs = .ok a ↔ F a ∧ bs = write a)
    (hlength : ∀ a, F a → (write a).length < 65536) :
    Recognizes (readItems field decode) fun as bs =>
      (as.length < 65536 ∧ ∀ a ∈ as, F a) ∧ bs = writeItems (as.map write) := by
  refine (recognizes_readItems field decode).congr fun as bs => ?_
  have hitem (a : α) (item : Bytes) : decode item = .ok a ∧ item.length < 65536 ↔
      F a ∧ item = write a := by
    rw [hdecode, and_iff_left_of_imp]
    rintro ⟨ha, rfl⟩
    exact hlength a ha
  simp only [hitem, List.forall₂_and_left, forall₂_eq_map_iff, and_assoc, exists_and_left,
    exists_eq_left]

/-- Where every content has one encoding for each way of writing it, the items of a list have one
for each list of ways. -/
theorem recognizes_readItems_spelled (field : String) {spell : ι → α → Bytes}
    (hdecode : ∀ {bs a}, decode bs = .ok a ↔ F a ∧ ∃ s, bs = spell s a) :
    Recognizes (readItems field decode) fun as bs => (as.length < 65536 ∧ ∀ a ∈ as, F a) ∧
      ∃ s : List ι, (s.length = as.length ∧ ∀ item ∈ List.zipWith spell s as,
        item.length < 65536) ∧ bs = writeItems (List.zipWith spell s as) := by
  refine (recognizes_readItems field decode).congr fun as bs => ?_
  have hitem (a : α) (item : Bytes) : decode item = .ok a ∧ item.length < 65536 ↔
      F a ∧ item.length < 65536 ∧ ∃ s, item = spell s a := by
    rw [hdecode, and_assoc, and_comm (a := ∃ s, item = spell s a)]
  simp only [hitem, List.forall₂_and_left, forall₂_and_right, forall₂_exists_eq_iff]
  constructor
  · rintro ⟨hcount, _, ⟨hF, hlengths, s, hs, rfl⟩, rfl⟩
    exact ⟨⟨hcount, hF⟩, s, ⟨hs, hlengths⟩, rfl⟩
  · rintro ⟨⟨hcount, hF⟩, s, ⟨hs, hlengths⟩, rfl⟩
    exact ⟨hcount, _, ⟨hF, hlengths, s, hs, rfl⟩, rfl⟩

/-- An item that may be missing is written like the others, or as an empty string. -/
theorem recognizes_readOptionalItem (field : String)
    (hdecode : ∀ {bs a}, decode bs = .ok a ↔ F a ∧ bs = write a)
    (hlength : ∀ a, F a → (write a).length < 65536) (hwrite : ∀ a, write a ≠ []) :
    Recognizes (readOptionalItem field decode) fun a? bs =>
      (∀ a ∈ a?, F a) ∧ bs = writeItem ((a?.map write).getD []) := by
  refine ((recognizes_readItem field).andThen fun item => (recognizes_pure none).ite
    ((recognizes_within field (decode item)).map some)).congr fun a? bs => ?_
  constructor
  · rintro ⟨item, _, back, ⟨hitem, rfl⟩, hback, rfl⟩
    by_cases hempty : item.isEmpty = true
    · rw [if_pos hempty] at hback
      obtain ⟨rfl, rfl⟩ := hback
      rw [List.isEmpty_iff.mp hempty, List.append_nil]
      exact ⟨nofun, rfl⟩
    · rw [if_neg hempty] at hback
      obtain ⟨a, ⟨hdecoded, rfl⟩, rfl⟩ := hback
      obtain ⟨ha, rfl⟩ := hdecode.mp hdecoded
      refine ⟨?_, List.append_nil _⟩
      rintro _ ⟨⟩
      exact ha
  · rintro ⟨ha, rfl⟩
    cases a? with
    | none => exact ⟨[], _, [], ⟨by decide, rfl⟩, ⟨rfl, rfl⟩, (List.append_nil _).symm⟩
    | some a =>
      have ha := ha a rfl
      refine ⟨write a, _, [], ⟨hlength a ha, rfl⟩, ?_, (List.append_nil _).symm⟩
      rw [if_neg (by rw [List.isEmpty_iff]; exact hwrite a)]
      exact ⟨a, ⟨hdecode.mpr ⟨ha, rfl⟩, rfl⟩, rfl⟩

/-- A list of items takes two bytes for their number and two for each of their lengths. -/
theorem length_writeItems (items : List Bytes) :
    (writeItems items).length = 2 + (items.map fun item => 2 + item.length).sum := by
  simp [writeItems, writeItem, List.length_flatMap, Writer.nat16]

section Excess

variable {spell : ι → α → Bytes} {excess : ι → α → ℕ} {s : List ι} {as : List α}

/-- The items are longer than the shortest ones by what their contents have in excess. -/
theorem length_writeItems_zipWith
    (h : ∀ s a, (spell s a).length = (write a).length + excess s a)
    (hlength : s.length = as.length) :
    (writeItems (List.zipWith spell s as)).length =
      (writeItems (as.map write)).length + (List.zipWith excess s as).sum := by
  rw [length_writeItems, length_writeItems]
  induction as generalizing s with
  | nil => simp
  | cons a as ih =>
    obtain ⟨i, s, rfl⟩ := List.exists_cons_of_length_eq_add_one hlength
    have hrest := ih (Nat.succ.inj hlength)
    simp only [List.zipWith_cons_cons, List.map_cons, List.sum_cons, h]
    omega

/-- Without excess all items are the shortest ones. -/
theorem zipWith_eq_map (h : ∀ s a, excess s a = 0 → spell s a = write a)
    (hlength : s.length = as.length) (hsum : (List.zipWith excess s as).sum = 0) :
    List.zipWith spell s as = as.map write := by
  induction as generalizing s with
  | nil => simp
  | cons a as ih =>
    obtain ⟨i, s, rfl⟩ := List.exists_cons_of_length_eq_add_one hlength
    rw [List.zipWith_cons_cons, List.sum_cons, Nat.add_eq_zero_iff] at hsum
    rw [List.zipWith_cons_cons, List.map_cons, h i a hsum.1, ih (Nat.succ.inj hlength) hsum.2]

end Excess

end Items

/-! ## Coins, points and indices -/

section Suite

variable {P : Type} [Suite P] [LawfulEncoding P]

/-- The lengths of inputs follow from those of their infos. -/
theorem recognizes_readInputs (field : String) :
    Recognizes (readItems field Coin.ofBytes) fun (coins : List (Coin P)) bs =>
      (coins.length < 65536 ∧ ∀ coin ∈ coins, coin.info.length ≤ Coin.maxInfoLength) ∧
        ∃ s : List Coin.Spelling, s.length = coins.length ∧
          bs = writeItems (List.zipWith Coin.spell s coins) := by
  refine (recognizes_readItems_spelled field Coin.ofBytes_eq_ok_iff).congr fun coins bs => ?_
  refine and_congr_right fun hcoins => exists_congr fun s => and_congr_left fun _ =>
    and_iff_left_of_imp fun _ => ?_
  exact forall_mem_zipWith fun s coin hcoin => Coin.length_spell_lt (hcoins.2 coin hcoin) s

/-- If outputs are short enough in a spelling, then in the shortest one. -/
theorem recognizes_readOutputs (field : String) :
    Recognizes (readItems field OutputCoin.ofBytes) fun (outputs : List (OutputCoin P)) bs =>
      ((outputs.length < 65536 ∧ ∀ output ∈ outputs, output.IsWritable) ∧
        ∀ output ∈ outputs, output.toBytes.length < 65536) ∧
        ∃ s : List Coin.Spelling, (s.length = outputs.length ∧
          ∀ item ∈ List.zipWith OutputCoin.spell s outputs, item.length < 65536) ∧
          bs = writeItems (List.zipWith OutputCoin.spell s outputs) := by
  refine (recognizes_readItems_spelled field OutputCoin.ofBytes_eq_ok_iff).congr
    fun outputs bs => ?_
  refine (and_congr_right fun _ => (and_iff_right_of_imp ?_).symm).trans and_assoc.symm
  rintro ⟨s, ⟨hs, hlengths⟩, -⟩
  exact forall_mem_of_forall_mem_zipWith hs (fun s output hlength =>
    Nat.lt_of_le_of_lt (Nat.le_add_right _ _) (OutputCoin.length_spell s output ▸ hlength)) hlengths

/-- A list of points stands behind its length in two bytes. -/
theorem recognizes_readPoints (field : String) :
    Recognizes (readPoints field) fun (ps : List P) bs =>
      ps.length < 65536 ∧ bs = writePoints ps := by
  refine ((recognizes_nat16 field).andThen fun _ => recognizes_points field _).congr fun ps bs => ?_
  simp [writePoints]

/-- A point that may be missing is an item, empty if it is. -/
theorem recognizes_readOptionalPoint (field : String) :
    Recognizes (readOptionalPoint field) fun (p : Option P) bs => bs = writeOptionalPoint p := by
  refine ((recognizes_nat16 field).andThen fun length => (recognizes_pure none).ite
    (((recognizes_point field).map some).ite (recognizes_fail _))).congr fun p bs => ?_
  constructor
  · rintro ⟨length, _, back, ⟨-, rfl⟩, hback, rfl⟩
    by_cases hzero : length = 0
    · rw [if_pos hzero] at hback
      obtain ⟨rfl, rfl⟩ := hback
      rw [hzero]
      rfl
    · rw [if_neg hzero] at hback
      by_cases hlength : length = pointLength
      · rw [if_pos hlength] at hback
        obtain ⟨q, rfl, rfl⟩ := hback
        rw [hlength, writeOptionalPoint, writeItem, LawfulEncoding.length_encode]
      · rw [if_neg hlength] at hback
        exact hback.elim
  · rintro rfl
    cases p with
    | none => exact ⟨0, _, [], ⟨by decide, rfl⟩, ⟨rfl, rfl⟩, rfl⟩
    | some q =>
      refine ⟨pointLength, _, Suite.encode q, ⟨by decide, rfl⟩, ⟨q, rfl, rfl⟩, ?_⟩
      rw [writeOptionalPoint, writeItem, LawfulEncoding.length_encode]

end Suite

/-- The indices are all that remains, so their number is known without being written. -/
theorem exhausts_readIndices (count : ℕ) : Exhausts (readIndices count) fun indices bs =>
    indices.length = count ∧ bs = indices.flatMap Writer.uint64 := by
  have hindices : Exhausts (repeated (uint64 "commitment index") count) fun indices bs =>
      indices.length = count ∧ bs = indices.flatMap Writer.uint64 :=
    ((recognizes_repeated (recognizes_uint64 _) count).congr fun _ _ =>
      and_congr_right fun _ => strings_eq_iff).exhausts
  have hlength (indices : List UInt64) :
      (indices.flatMap Writer.uint64).length = indices.length * indexLength := by
    simp [List.length_flatMap, indexLength, Coin.valueLength]
  intro cursor indices
  have hrun : (readIndices count).run cursor =
      (if cursor.rest.length = count * indexLength then
        repeated (uint64 "commitment index") count
      else fail (.malformed "commitment indices"
        (.lengthMismatch (count * indexLength) cursor.rest.length))).run cursor := rfl
  rw [hrun]
  by_cases hremaining : cursor.rest.length = count * indexLength
  · rw [if_pos hremaining, hindices]
  · rw [if_neg hremaining]
    simp only [recognizes_fail _ cursor indices, false_and, exists_false, false_iff]
    rintro ⟨rfl, hbs⟩
    exact hremaining (hbs ▸ hlength indices)

/-! ## Spellings -/

/-- For each coin of a payment which of its blank fields are written in full. -/
structure Spelling where
  inputs : List Coin.Spelling
  outputs : List Coin.Spelling

variable {P : Type} [Suite P]

/-- The spelling has an entry for every coin, and every output fits behind its length. -/
structure Spelling.Fits (s : Spelling) (proof : Proof P) : Prop where
  inputs : s.inputs.length = proof.inputs.length
  outputs : s.outputs.length = proof.outputs.length
  outputLengths : ∀ item ∈ List.zipWith OutputCoin.spell s.outputs proof.outputs,
    item.length < 65536

/-- The spelling of a payment that leaves all blank fields out. -/
def Spelling.shortest (proof : Proof P) : Spelling :=
  ⟨proof.inputs.map fun _ => {}, proof.outputs.map fun _ => {}⟩

namespace Proof

/-- The encoding of a payment with given strings for its coins. -/
def bytesWith (proof : Proof P) (inputs outputs : List Bytes) : Bytes :=
  writeItems (proof.memberships.map Membership.Proof.toBytes) ++
    writeItems (proof.hiddenSerials.map SerialNumber.Hidden.Proof.toBytes) ++
    writeItems (proof.revealedSerials.map SerialNumber.Revealed.Proof.toBytes) ++
    writeItem ((proof.range.map RangeProof.Proof.toBytes).getD []) ++
    writeItems inputs ++ writeItems outputs ++
    writePoints proof.outputValues ++ writePoints proof.outputDerivators ++
    writePoints proof.outputShards ++ writeOptionalPoint proof.key ++
    writePoints proof.inputValues ++ writePoints proof.inputDerivators ++
    writeOptionalPoint proof.inputShard ++ proof.ringIndices.flatMap Writer.uint64

/-- A spelling of a payment. -/
def spell (s : Spelling) (proof : Proof P) : Bytes :=
  proof.bytesWith (List.zipWith Coin.spell s.inputs proof.inputs)
    (List.zipWith OutputCoin.spell s.outputs proof.outputs)

/-- How many bytes a spelling of a payment is longer than the shortest one. -/
def excess (s : Spelling) (proof : Proof P) : ℕ :=
  (List.zipWith Coin.excess s.inputs proof.inputs).sum +
    (List.zipWith (fun s output => output.coin.excess s) s.outputs proof.outputs).sum

/-- What a payment has to be like to be written without loss: no part is longer than its length
can say, and the parts have the shapes that decoders ask for. -/
structure IsWritable (proof : Proof P) : Prop where
  memberships : proof.memberships.length < 65536 ∧
    ∀ membership ∈ proof.memberships, membership.isWellFormed = true
  hiddenSerials : proof.hiddenSerials.length < 65536
  revealedSerials : proof.revealedSerials.length < 65536
  range : ∀ range ∈ proof.range, range.isWellFormed = true
  inputs : proof.inputs.length < 65536 ∧
    ∀ coin ∈ proof.inputs, coin.info.length ≤ Coin.maxInfoLength
  outputs : proof.outputs.length < 65536 ∧ ∀ output ∈ proof.outputs, output.IsWritable
  outputLengths : ∀ output ∈ proof.outputs, output.toBytes.length < 65536
  outputValues : proof.outputValues.length < 65536
  outputDerivators : proof.outputDerivators.length < 65536
  outputShards : proof.outputShards.length < 65536
  inputValues : proof.inputValues.length < 65536
  inputDerivators : proof.inputDerivators.length < 65536
  ringIndices : proof.ringIndices.length = proof.memberships.length * Membership.ringSize

variable [LawfulEncoding P]

/-- Of the parts of a payment only its coins have several spellings. -/
theorem exhausts_reader : Exhausts reader fun (proof : Proof P) bs =>
    proof.IsWritable ∧ ∃ s : Spelling, s.Fits proof ∧ bs = proof.spell s := by
  have hhidden {bs} {h : SerialNumber.Hidden.Proof P} :
      SerialNumber.Hidden.Proof.ofBytes bs = .ok h ↔ True ∧ bs = h.toBytes :=
    SerialNumber.Hidden.ofBytes_eq_ok_iff.trans (iff_of_eq (true_and _)).symm
  have hrevealed {bs} {r : SerialNumber.Revealed.Proof P} :
      SerialNumber.Revealed.Proof.ofBytes bs = .ok r ↔ True ∧ bs = r.toBytes :=
    SerialNumber.Revealed.ofBytes_eq_ok_iff.trans (iff_of_eq (true_and _)).symm
  -- The parts in the order of the format; the number of indices comes from the first one.
  refine ((recognizes_readItems_exact _ Membership.ofBytes_eq_ok_iff
      (fun _ => Membership.length_toBytes_lt)).bind_exhausts
    fun _ _ _ => (recognizes_readItems_exact _ hhidden
      (fun h _ => SerialNumber.Hidden.length_toBytes_lt h)).bind_exhausts
    fun _ _ _ => (recognizes_readItems_exact _ hrevealed
      (fun r _ => SerialNumber.Revealed.length_toBytes_lt r)).bind_exhausts
    fun _ _ _ => (recognizes_readOptionalItem _ RangeProof.ofBytes_eq_ok_iff
      (fun _ => RangeProof.length_toBytes_lt) RangeProof.toBytes_ne_nil).bind_exhausts
    fun _ _ _ => (recognizes_readInputs _).bind_exhausts
    fun _ _ _ => (recognizes_readOutputs _).bind_exhausts
    fun _ _ _ => (recognizes_readPoints _).bind_exhausts
    fun _ _ _ => (recognizes_readPoints _).bind_exhausts
    fun _ _ _ => (recognizes_readPoints _).bind_exhausts
    fun _ _ _ => (recognizes_readOptionalPoint _).bind_exhausts
    fun _ _ _ => (recognizes_readPoints _).bind_exhausts
    fun _ _ _ => (recognizes_readPoints _).bind_exhausts
    fun _ _ _ => (recognizes_readOptionalPoint _).bind_exhausts
    fun _ _ _ => (exhausts_readIndices _).bind_pure _).congr ?_
  rintro ⟨memberships, hiddenSerials, revealedSerials, range, inputs, outputs, outputValues,
    outputDerivators, outputShards, key, inputValues, inputDerivators, inputShard, ringIndices⟩ bs
  simp only [↓existsAndEq, and_true, implies_true, Option.mem_def, mk.injEq, true_and,
    exists_and_left]
  constructor
  · rintro ⟨hmemberships, s, s', ⟨hhidden, hrevealed, hrange, ⟨hinputs, hs⟩,
      ⟨⟨houtputs, hshortest⟩, hs', hlengths⟩, hpoints⟩, rfl⟩
    obtain ⟨hvalues, hderivators, hshards, hinputValues, hinputDerivators, hindices⟩ := hpoints
    refine ⟨⟨hmemberships, hhidden, hrevealed, hrange, hinputs, houtputs, hshortest, hvalues,
      hderivators, hshards, hinputValues, hinputDerivators, hindices⟩, ⟨s, s'⟩,
      ⟨hs, hs', hlengths⟩, ?_⟩
    simp [spell, bytesWith]
  · rintro ⟨h, s, hs, rfl⟩
    refine ⟨h.memberships, s.inputs, s.outputs, ⟨h.hiddenSerials, h.revealedSerials, h.range,
      ⟨h.inputs, hs.inputs⟩, ⟨⟨h.outputs, h.outputLengths⟩, hs.outputs, hs.outputLengths⟩,
      h.outputValues, h.outputDerivators, h.outputShards, h.inputValues, h.inputDerivators,
      h.ringIndices⟩, ?_⟩
    simp [spell, bytesWith]

/-- A string is read as a payment exactly if it is one of the spellings of this payment. -/
theorem ofBytes_eq_ok_iff {bs : Bytes} {proof : Proof P} : ofBytes bs = .ok proof ↔
    proof.IsWritable ∧ ∃ s : Spelling, s.Fits proof ∧ bs = proof.spell s :=
  exhausts_reader.decode_eq_ok_iff

/-! ## The shortest spelling -/

omit [LawfulEncoding P] in
/-- The encoding of a payment leaves all blank fields of its coins out. -/
theorem spell_shortest (proof : Proof P) : proof.spell (.shortest proof) = proof.toBytes := by
  simp only [spell, Spelling.shortest, List.zipWith_map_left, List.zipWith_self,
    Coin.spell_default, OutputCoin.spell_default]
  rfl

omit [LawfulEncoding P] in
/-- The shortest spelling has a choice for every coin of the payment. -/
theorem IsWritable.fits_shortest {proof : Proof P} (h : proof.IsWritable) :
    (Spelling.shortest proof).Fits proof where
  inputs := List.length_map _
  outputs := List.length_map _
  outputLengths := by
    simp only [Spelling.shortest, List.zipWith_map_left, List.zipWith_self,
      OutputCoin.spell_default]
    exact List.forall_mem_map.mpr h.outputLengths

/-- A payment reads back, if it can be written. -/
theorem ofBytes_toBytes {proof : Proof P} (h : proof.IsWritable) :
    ofBytes proof.toBytes = .ok proof :=
  ofBytes_eq_ok_iff.mpr ⟨h, _, h.fits_shortest, (spell_shortest proof).symm⟩

/-- A spelling is longer than the shortest one by its excess. -/
theorem length_spell {s : Spelling} {proof : Proof P} (hs : s.Fits proof) :
    (proof.spell s).length = proof.toBytes.length + proof.excess s := by
  have hinputs := length_writeItems_zipWith Coin.length_spell hs.inputs
  have houtputs := length_writeItems_zipWith OutputCoin.length_spell hs.outputs
  simp only [spell, bytesWith, toBytes, excess, List.length_append, hinputs, houtputs]
  omega

/-- No other spelling is as short as the encoding. -/
theorem spell_eq_toBytes_iff {s : Spelling} {proof : Proof P} (hs : s.Fits proof) :
    proof.spell s = proof.toBytes ↔ proof.excess s = 0 := by
  constructor
  · intro h
    have hlength := length_spell hs
    rw [h] at hlength
    omega
  · intro h
    obtain ⟨hinputs, houtputs⟩ := Nat.add_eq_zero_iff.mp h
    have hcoin (s) (coin : Coin P) : coin.excess s = 0 → coin.spell s = coin.toBytes :=
      Coin.spell_eq_toBytes_iff.mpr
    have houtput (s) (output : OutputCoin P) :
        output.coin.excess s = 0 → output.spell s = output.toBytes :=
      OutputCoin.spell_eq_toBytes_iff.mpr
    rw [spell, zipWith_eq_map hcoin hs.inputs hinputs, zipWith_eq_map houtput hs.outputs houtputs]
    rfl

end Proof

end ConfidentialPayment.Payment
