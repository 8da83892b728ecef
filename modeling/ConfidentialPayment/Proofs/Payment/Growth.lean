import Mathlib.Algebra.Module.Basic
import ConfidentialPayment.Proofs.Ledger
import ConfidentialPayment.Proofs.Payment.Spending

/-!
# ConfidentialPayment.Proofs.Payment.Growth

An accepted payment stays acceptable while the ledger grows.

Verification asks a ledger for two things only: whether it has the commitments of transparent
inputs, and which commitments have the numbers of private rings. An extension answers both in the
same way, so what comes after the lookups is the same run on the same random bytes.
-/

namespace ConfidentialPayment.Payment

variable {P : Type} [Suite P] {gens : Generators P} {table : GeneratorTable P} {fee : UInt64}
  {proof : Proof P} {before after : Ledger.View P} {tape rest : RandomSource}

/-! ## Lookups -/

/-- What can be spent can be spent on a ledger that has grown. -/
theorem IsSpendable.of_extends {input : Coin P × SerialNumber.Revealed.Proof P}
    (h : IsSpendable gens before input) (hgrowth : after.Extends before) :
    IsSpendable gens after input :=
  ⟨h.committed, hgrowth.contains h.known, h.serial⟩

/-- A ring member is found on a ledger that has grown. -/
theorem ringMember_of_extends {sum member : P} {index : UInt64}
    (h : ringMember before sum index = .ok member) (hgrowth : after.Extends before) :
    ringMember after sum index = .ok member := by
  obtain ⟨commitment, hcommitment, hmember⟩ := ringMember_eq_ok_iff.mp h
  exact ringMember_eq_ok_iff.mpr ⟨commitment, hgrowth.commitmentAt hcommitment, hmember⟩

/-- The rings of a payment are the same on a ledger that has grown. -/
theorem Proof.rings_of_extends {s : Shielding P} {rings : List (List P)}
    (h : proof.rings before s = .ok rings) (hgrowth : after.Extends before) :
    proof.rings after s = .ok rings := by
  refine mapM_eq_ok.mpr ((mapM_eq_ok.mp h).imp fun ring members hmembers => ?_)
  refine mapM_eq_ok.mpr ((mapM_eq_ok.mp hmembers).imp fun index member hmember => ?_)
  exact ringMember_of_extends hmember hgrowth

/-! ## Payments -/

/-- A transparent payment is accepted on a ledger that has grown. -/
theorem Proof.verifyTransparent_of_extends (h : proof.verifyTransparent gens before fee = .ok ())
    (hgrowth : after.Extends before) : proof.verifyTransparent gens after fee = .ok () := by
  obtain ⟨hparts, hinputs, houtputs, hrange, hbalance⟩ := verifyTransparent_eq_ok_iff.mp h
  exact verifyTransparent_eq_ok_iff.mpr
    ⟨hparts, fun input hinput => (hinputs input hinput).of_extends hgrowth, houtputs, hrange,
      hbalance⟩

/-- A private payment is accepted with the same draws on a ledger that has grown. -/
theorem Proof.gives_verifyPrivate_of_extends
    (h : (proof.verifyPrivate gens table before fee).Gives tape () rest)
    (hgrowth : after.Extends before) :
    (proof.verifyPrivate gens table after fee).Gives tape () rest := by
  obtain ⟨s, rings, hparts, hrings, hbatch, hchecks⟩ := gives_verifyPrivate.mp h
  obtain ⟨hshard, hrings⟩ := openRings_eq_ok_iff.mp hrings
  exact gives_verifyPrivate.mpr ⟨s, rings, hparts,
    openRings_eq_ok_iff.mpr ⟨hshard, rings_of_extends hrings hgrowth⟩, hbatch, hchecks⟩

/-- Acceptance is monotone in what the verifier sees of the ledger. -/
theorem Proof.gives_verify_of_extends {isPrivate : Bool}
    (h : (proof.verify gens table before isPrivate fee).Gives tape () rest)
    (hgrowth : after.Extends before) :
    (proof.verify gens table after isPrivate fee).Gives tape () rest := by
  obtain ⟨hcoins, hmode⟩ := gives_verify.mp h
  refine gives_verify.mpr ⟨hcoins, ?_⟩
  cases isPrivate with
  | false => exact ⟨verifyTransparent_of_extends hmode.1 hgrowth, hmode.2⟩
  | true => exact gives_verifyPrivate_of_extends hmode hgrowth

/-- A payment that is accepted against the ledger of some commitments is accepted against every
later one, in the same mode, with the same fee and with the same random bytes, of which it draws the
same. The commitments in between may be any points, old and neutral ones included. -/
theorem Proof.gives_verify_append {isPrivate : Bool} {commitments : List P}
    (h : (proof.verify gens table (Ledger.Indexed.ofList commitments).view isPrivate fee).Gives
      tape () rest) (appended : List P) :
    (proof.verify gens table ((Ledger.Indexed.ofList commitments).append appended).view isPrivate
      fee).Gives tape () rest :=
  gives_verify_of_extends h Ledger.Indexed.extends_append.view

/-- A transparent and a private payment against the ledger of the two rings are still accepted when
an old commitment and the neutral point were appended. -/
theorem Proof.gives_verify_append_ideal :
    let table := GeneratorTable.neutral Opening 128
    let ledger := Ledger.Indexed.ofList (firstRing .ideal ++ secondRing .ideal)
    let later := ledger.append [(firstCoin .ideal).commitment, 0]
    ∀ tape, ∃ (transparent shielded : Proof Opening) (rest rest' : RandomSource),
      (transparent.verify .ideal table ledger.view false 0).Gives tape () rest ∧
      (transparent.verify .ideal table later.view false 0).Gives tape () rest ∧
      (shielded.verify .ideal table ledger.view true 3).Gives tape () rest' ∧
      (shielded.verify .ideal table later.view true 3).Gives tape () rest' := by
  intro table ledger later tape
  have hview : ledger.view = Request.idealLedger.view :=
    Ledger.Indexed.view_ofList Suite.encode_injective_ideal _
  -- the transparent payment hands the first coin on
  have hfirst : (firstCoin .ideal).IsGenuine .ideal 3 := isGenuine_firstCoin .ideal
  have hknown : ledger.view.contains (firstCoin .ideal).commitment = true := by
    rw [hview]
    decide
  let output : OutputCoin Opening := .plain (firstCoin .ideal)
  obtain ⟨transparent, -, -, haccepted⟩ := TransparentWitness.exists_single table ledger.view
    hfirst hknown (show output.coin.isCommitted .ideal = true from hfirst.committed) rfl
  obtain ⟨⟨⟩, rest, hrun, -⟩ := haccepted tape
  -- the private one spends both coins
  obtain ⟨w, hw⟩ := ShieldedWitness.exists_represents_ideal
  obtain ⟨memberships, hiddenSerials, range, outputs, hp, haccepted'⟩ :=
    (hw.isProvable rfl (Request.isGenuine_twoCoins .ideal true)).exists_accepted_ideal
  have hcoins := ShieldedWitness.checkCoins_assemble (hw.inputs_ne_nil (List.cons_ne_nil _ _))
    (hw.outputs_ne_nil (List.cons_ne_nil _ _))
    (hw.nodup_serialNumbers (Request.nodup_serialNumber_twoCoins true (by decide))) hp
  obtain ⟨⟨⟩, rest', hrun', -⟩ := haccepted' tape
  have hshielded : ((w.assemble memberships hiddenSerials range outputs).verify .ideal table
      ledger.view true 3).Gives tape () rest' := hview ▸ gives_verify.mpr ⟨hcoins, hrun'⟩
  exact ⟨transparent, _, rest, rest', hrun, gives_verify_append hrun _, hshielded,
    gives_verify_append hshielded _⟩

end ConfidentialPayment.Payment
