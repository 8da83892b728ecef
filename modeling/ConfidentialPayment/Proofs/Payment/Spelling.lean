import ConfidentialPayment.Proofs.Payment.Encoding
import ConfidentialPayment.Ristretto

/-!
# ConfidentialPayment.Proofs.Payment.Spelling

Which accepted strings are encodings.

Decoders of coins, of outputs and of payments accept all spellings of a value, and the encoding is
the shortest of them. So a decoded value has the bytes that it was read from exactly if no blank
field of a coin is written in full (`toBytes_eq_iff_of_ofBytes`); every other part of a payment has
one spelling. `exists_reencoded_shorter` is a payment with two spellings, both accepted, which
share the digest of the encoding.
-/

namespace ConfidentialPayment.Payment

variable {P : Type} [Suite P] [LawfulEncoding P]

/-- What is accepted is a spelling of the result. It is longer than the encoding by what blank
fields of coins have in excess, and it is the encoding exactly if they have nothing; all other
spellings are accepted with the same result. -/
theorem toBytes_eq_iff_of_ofBytes :
    (∀ (bs : Bytes) (coin : Coin P), Coin.ofBytes bs = .ok coin →
      (∃ s, bs = coin.spell s ∧ bs.length = coin.toBytes.length + coin.excess s ∧
        (coin.toBytes = bs ↔ coin.excess s = 0)) ∧
      ∀ s, Coin.ofBytes (coin.spell s) = .ok coin) ∧
    (∀ (bs : Bytes) (output : OutputCoin P), OutputCoin.ofBytes bs = .ok output →
      (∃ s, bs = output.spell s ∧ bs.length = output.toBytes.length + output.coin.excess s ∧
        (output.toBytes = bs ↔ output.coin.excess s = 0)) ∧
      ∀ s, OutputCoin.ofBytes (output.spell s) = .ok output) ∧
    ∀ (bs : Bytes) (proof : Proof P), Proof.ofBytes bs = .ok proof →
      (∃ s : Spelling, s.Fits proof ∧ bs = proof.spell s ∧
        bs.length = proof.toBytes.length + proof.excess s ∧
        (proof.toBytes = bs ↔ proof.excess s = 0)) ∧
      ∀ s : Spelling, s.Fits proof → Proof.ofBytes (proof.spell s) = .ok proof := by
  refine ⟨fun bs coin h => ?coin, fun bs output h => ?output, fun bs proof h => ?payment⟩
  case coin =>
    obtain ⟨hinfo, s, rfl⟩ := Coin.ofBytes_eq_ok_iff.mp h
    exact ⟨⟨s, rfl, Coin.length_spell s coin, eq_comm.trans Coin.spell_eq_toBytes_iff⟩,
      fun s => Coin.ofBytes_eq_ok_iff.mpr ⟨hinfo, s, rfl⟩⟩
  case output =>
    obtain ⟨hwritable, s, rfl⟩ := OutputCoin.ofBytes_eq_ok_iff.mp h
    exact ⟨⟨s, rfl, OutputCoin.length_spell s output,
      eq_comm.trans OutputCoin.spell_eq_toBytes_iff⟩,
      fun s => OutputCoin.ofBytes_eq_ok_iff.mpr ⟨hwritable, s, rfl⟩⟩
  case payment =>
    obtain ⟨hwritable, s, hs, rfl⟩ := Proof.ofBytes_eq_ok_iff.mp h
    exact ⟨⟨s, hs, rfl, Proof.length_spell hs, eq_comm.trans (Proof.spell_eq_toBytes_iff hs)⟩,
      fun s hs => Proof.ofBytes_eq_ok_iff.mpr ⟨hwritable, s, hs, rfl⟩⟩

/-! ## A payment with two encodings -/

/-- A payment of one blank coin to nobody. -/
def blankPayment : Proof Ristretto.Point := { inputs := [Coin.blank], outputs := [] }

/-- A string of this payment, with the neutral public key of the coin written in full: four empty
parts, one item of 39 bytes, and eight more empty parts. -/
def blankPaymentInFull : Bytes :=
  List.replicate 8 0 ++ [0, 1, 0, 39] ++ 32 :: List.replicate 38 0 ++ List.replicate 16 0

/-- A blank payment is read also from fields that are written in full. -/
theorem ofBytes_blankPaymentInFull : Proof.ofBytes blankPaymentInFull = .ok blankPayment := by
  refine Proof.ofBytes_eq_ok_iff.mpr ⟨?writable, ⟨[{ publicKey := true }], []⟩, ?fits,
    by decide +kernel⟩
  case writable => constructor <;> simp [blankPayment, Coin.blank]
  case fits => exact ⟨rfl, rfl, by simp [blankPayment]⟩

/-- The long string is one of the spellings, and the encoding is read as the same payment. -/
theorem toBytes_eq_iff_of_ofBytes_blank :
    (∃ s : Spelling, s.Fits blankPayment ∧ blankPaymentInFull = blankPayment.spell s ∧
      blankPaymentInFull.length = blankPayment.toBytes.length + blankPayment.excess s ∧
      (blankPayment.toBytes = blankPaymentInFull ↔ blankPayment.excess s = 0)) ∧
    Proof.ofBytes blankPayment.toBytes = .ok blankPayment := by
  obtain ⟨hspelling, hspellings⟩ :=
    toBytes_eq_iff_of_ofBytes.2.2 blankPaymentInFull blankPayment ofBytes_blankPaymentInFull
  have hwritable := (Proof.ofBytes_eq_ok_iff.mp ofBytes_blankPaymentInFull).1
  exact ⟨hspelling, blankPayment.spell_shortest ▸ hspellings _ hwritable.fits_shortest⟩

/-- An accepted string whose payment has another encoding, which is accepted as well. -/
theorem exists_reencoded_shorter :
    Proof.ofBytes blankPaymentInFull = .ok blankPayment ∧
      blankPayment.toBytes ≠ blankPaymentInFull ∧
      Proof.ofBytes blankPayment.toBytes = .ok blankPayment := by
  have hwritable := (Proof.ofBytes_eq_ok_iff.mp ofBytes_blankPaymentInFull).1
  exact ⟨ofBytes_blankPaymentInFull, by decide +kernel, Proof.ofBytes_toBytes hwritable⟩

end ConfidentialPayment.Payment
