import Mathlib.Logic.Relation
import ConfidentialPayment.Proofs.Coin.Decryption
import ConfidentialPayment.Proofs.Wire.Exactness

/-!
# ConfidentialPayment.Proofs.Coin.Reachable

Outputs that callers can put together, and which of them are read back.

1. All fields of a coin but its info can be assigned; an info can only be set, and read. So whatever
   is done to a coin, its info stays short enough for the byte that its length is written in
   (`Coin.Reachable.length_info_le`).
2. The ciphertext of an output can be assigned as well. Ciphertexts have any length, and the two
   bytes in front of them keep the length modulo 65536. A longer ciphertext leaves more bytes behind
   than any coin has, so what is written is refused (`OutputCoin.length_lt_of_ofBytes_toBytes`), and
   an output is read back exactly if its ciphertext has fewer bytes (`OutputCoin.reads_back_iff`).
-/

namespace ConfidentialPayment

variable {P : Type} [Suite P]

namespace Coin

/-! ## Coins of callers -/

/-- A coin as it is made or read. -/
inductive Origin : Coin P → Prop
  | blank : Origin blank
  | uncommitted (publicKey : P) (derivator blinding : Scalar) (value : UInt64) :
      Origin (uncommitted publicKey derivator blinding value)
  | payee {payee : Payee P} {output : OutputCoin P} {tape rest : RandomSource}
      (h : (OutputCoin.forPayee payee).Gives tape output rest) : Origin output.coin
  | read {bs : Bytes} {coin : Coin P} (h : ofBytes bs = .ok coin) : Origin coin
  | readOutput {bs : Bytes} {output : OutputCoin P} (h : OutputCoin.ofBytes bs = .ok output) :
      Origin output.coin

/-- What can be done to a coin: its public fields are assigned, its info is set, its commitment or
its serial number is computed, it is stripped, or it is encrypted or decrypted within an output. -/
inductive Step (coin : Coin P) : Coin P → Prop
  | assign (publicKey commitment : P) (derivator : Scalar) (serialNumber : P) (blinding : Scalar)
      (value : UInt64) : Step coin
        { coin with publicKey, commitment, derivator, serialNumber, blinding, value }
  | setInfo {info : Bytes} {coin' : Coin P} (h : coin.withInfo info = .ok coin') : Step coin coin'
  | commit (gens : Generators P) : Step coin (coin.commit gens)
  | setSerial {gens : Generators P} {privateKey : Scalar} {coin' : Coin P}
      (h : coin.withSerial gens privateKey = .ok coin') : Step coin coin'
  | strip : Step coin coin.strip
  | encrypt {gens : Generators P} {transmissionKey : P} {ciphertext : Hybrid.Ciphertext P}
      {encrypted : OutputCoin P} {tape rest : RandomSource}
      (h : (OutputCoin.encrypt gens transmissionKey ⟨coin, ciphertext⟩).Gives tape encrypted rest) :
      Step coin encrypted.coin
  | decrypt {gens : Generators P} {receivingKey : Scalar} {ciphertext : Hybrid.Ciphertext P}
      {coin' : Coin P}
      (h : OutputCoin.decrypt gens receivingKey ⟨coin, ciphertext⟩ = .ok coin') : Step coin coin'

/-- A coin that a caller can have. -/
def Reachable (coin : Coin P) : Prop :=
  ∃ start : Coin P, Origin start ∧ Relation.ReflTransGen Step start coin

variable {coin coin' : Coin P}

/-- A coin that nothing was done to is reachable. -/
theorem Origin.reachable (h : Origin coin) : coin.Reachable := ⟨coin, h, .refl⟩

/-! ## Infos -/

/-- No step makes an info too long. -/
theorem Step.length_info_le (h : Step coin coin') (hinfo : coin.info.length ≤ maxInfoLength) :
    coin'.info.length ≤ maxInfoLength := by
  cases h with
  | assign => exact hinfo
  | setInfo h => exact length_info_of_withInfo h
  | commit => exact hinfo
  | setSerial h =>
    obtain ⟨serialNumber, -, hset⟩ := bind_eq_ok.mp h
    obtain rfl := pure_eq_ok.mp hset
    exact hinfo
  | strip => exact Nat.zero_le _
  | encrypt h =>
    have hencrypted := (OutputCoin.encrypt_ensures _ _).of_gives h
    rw [hencrypted.coin]
    exact hinfo
  | decrypt h =>
    rw [(OutputCoin.eq_of_decrypt h).2]
    exact hinfo

variable [LawfulEncoding P]

/-- Coins start with infos that can be written. -/
theorem Origin.length_info_le (h : Origin coin) : coin.info.length ≤ maxInfoLength := by
  cases h with
  | blank => exact Nat.zero_le _
  | uncommitted => exact Nat.zero_le _
  | payee h => exact (OutputCoin.isPlain_of_forPayee h).info
  | read h => exact (ofBytes_eq_ok_iff.mp h).1
  | readOutput h => exact (OutputCoin.ofBytes_eq_ok_iff.mp h).1.info

/-- Whatever is done to a coin, its info can be written. -/
theorem Reachable.length_info_le (h : coin.Reachable) : coin.info.length ≤ maxInfoLength := by
  obtain ⟨start, horigin, hsteps⟩ := h
  induction hsteps with
  | refl => exact horigin.length_info_le
  | tail _ hstep ih => exact hstep.length_info_le ih

end Coin

namespace OutputCoin

variable [LawfulEncoding P] {output : OutputCoin P}

/-! ## Ciphertexts of any length -/

/-- Whatever is read, its ciphertext has at most the written length modulo 65536. With a longer
ciphertext, 65536 bytes or more are left to the coin. -/
theorem length_lt_of_ofBytes_toBytes {read : OutputCoin P}
    (h : OutputCoin.ofBytes output.toBytes = .ok read) :
    output.ciphertext.toBytes.length < 65536 := by
  obtain ⟨hwritable, s, hspelling⟩ := ofBytes_eq_ok_iff.mp h
  simp only [toBytes, spell, List.append_assoc] at hspelling
  obtain ⟨hlengths, hrest⟩ := List.append_inj hspelling (by simp [Writer.nat16])
  have hread : read.ciphertext.toBytes.length = output.ciphertext.toBytes.length % 65536 := by
    have hnumbers := congrArg Bytes.toNatBE hlengths
    rw [Writer.nat16, Writer.nat16, Bytes.toNatBE_ofNatBE, Bytes.toNatBE_ofNatBE] at hnumbers
    rw [← Nat.mod_eq_of_lt hwritable.ciphertext]
    exact hnumbers.symm
  have htotal := congrArg List.length hrest
  have hcoin := Coin.length_spell_lt hwritable.info s
  simp only [List.length_append] at htotal
  omega

omit [LawfulEncoding P] in
/-- Nine zeros are a blank coin without ciphertext, and no output has bytes behind it. -/
theorem ofBytes_blank_append {rest : Bytes} (h : rest ≠ []) :
    (OutputCoin.ofBytes (List.replicate 9 0 ++ rest) : Except Error (OutputCoin P)) =
      .error (.lengthMismatch 9 (9 + rest.length)) := by
  have hread : (reader : Reader (OutputCoin P)).run ⟨0, List.replicate 9 0 ++ rest⟩ =
      .ok (plain .blank, ⟨9, rest⟩) := rfl
  have hfinish : Reader.finish.run ⟨9, rest⟩ =
      .error (.lengthMismatch 9 (9 + rest.length)) := by
    cases rest with
    | nil => exact absurd rfl h
    | cons => rfl
  rw [OutputCoin.ofBytes, Reader.decode, hread]
  show Reader.finish.run ⟨9, rest⟩ >>= _ = _
  rw [hfinish]
  rfl

/-! ## Reading back -/

/-- A blank coin with a ciphertext of nothing but zeros, of which 64 are the encrypted key. -/
def ofZeros (count : ℕ) : OutputCoin Ristretto.Point :=
  ⟨.blank, ⟨some ⟨0, 0⟩, List.replicate count 0⟩⟩

/-- A ciphertext that was read from zero bytes is written as these zero bytes. -/
theorem toBytes_ciphertext_ofZeros (count : ℕ) :
    (ofZeros count).ciphertext.toBytes = List.replicate (64 + count) 0 := by
  have hzero : Suite.encode (0 : Ristretto.Point) = List.replicate 32 0 := by decide +kernel
  have hkey : Elgamal.Ciphertext.toBytes (⟨0, 0⟩ : Elgamal.Ciphertext Ristretto.Point) =
      List.replicate 64 0 := by
    rw [Elgamal.Ciphertext.toBytes, hzero]
    rfl
  rw [List.replicate_add, ← hkey]
  rfl

/-- Its ciphertext is what is read from as many zeros. -/
theorem ofBytes_zeros (count : ℕ) : Hybrid.Ciphertext.ofBytes (List.replicate (64 + count) 0) =
    .ok (ofZeros count).ciphertext := by
  have hkey : (ofZeros count).ciphertext.HasKey := fun hnone => absurd hnone (Option.some_ne_none _)
  exact Hybrid.ofBytes_eq_ok_iff.mpr ⟨hkey, (toBytes_ciphertext_ofZeros count).symm⟩

/-- Ciphertexts of zero bytes come from the decoder. -/
theorem arises_ofZeros (count : ℕ) : WireForm.hybrid.Arises (ofZeros count).ciphertext :=
  .inr ⟨_, ofBytes_zeros count⟩

/-- An output with any coin and any ciphertext that a caller can have is read back exactly if the
ciphertext has fewer than 65536 bytes; what is written of it otherwise is refused. -/
theorem reads_back_iff (hcoin : output.coin.Reachable)
    (hciphertext : WireForm.hybrid.Arises output.ciphertext) :
    (OutputCoin.ofBytes output.toBytes = .ok output ↔
      output.ciphertext.toBytes.length < 65536) ∧
    (65536 ≤ output.ciphertext.toBytes.length →
      ∃ cause, (OutputCoin.ofBytes output.toBytes : Except Error (OutputCoin P)) =
        .error cause) := by
  have hkey : output.ciphertext.HasKey := WireForm.hybrid.fits_of_arises rfl hciphertext
  refine ⟨⟨length_lt_of_ofBytes_toBytes, fun hlength => ?_⟩, fun hlong => ?_⟩
  · exact ofBytes_toBytes ⟨hcoin.length_info_le, hkey, hlength⟩
  · cases hread : (OutputCoin.ofBytes output.toBytes : Except Error (OutputCoin P)) with
    | error cause => exact ⟨cause, rfl⟩
    | ok read => exact absurd (length_lt_of_ofBytes_toBytes hread) (Nat.not_lt.mpr hlong)

/-- The longest ciphertext of zeros that is read back, and the next one. -/
theorem reads_back_iff_ofZeros :
    (ofZeros 65471).coin.Reachable ∧ WireForm.hybrid.Arises (ofZeros 65471).ciphertext ∧
      OutputCoin.ofBytes (ofZeros 65471).toBytes = .ok (ofZeros 65471) ∧
      ∃ cause, (OutputCoin.ofBytes (ofZeros 65472).toBytes :
        Except Error (OutputCoin Ristretto.Point)) = .error cause := by
  have hlength (count : ℕ) : (ofZeros count).ciphertext.toBytes.length = 64 + count := by
    rw [toBytes_ciphertext_ofZeros, List.length_replicate]
  have hblank (count : ℕ) : (ofZeros count).coin.Reachable := Coin.Origin.blank.reachable
  obtain ⟨hshort, -⟩ := reads_back_iff (hblank 65471) (arises_ofZeros 65471)
  obtain ⟨-, hlong⟩ := reads_back_iff (hblank 65472) (arises_ofZeros 65472)
  rw [hlength] at hshort hlong
  exact ⟨hblank _, arises_ofZeros _, hshort.mpr (by decide), hlong le_rfl⟩

/-- The length 65536 is written as zero. What is read is then an output without ciphertext, a blank
coin, and 65536 bytes too many. -/
theorem exists_refused_ofZeros : ∃ output : OutputCoin Ristretto.Point, output.coin.Reachable ∧
    Hybrid.Ciphertext.ofBytes (List.replicate 65536 0) = .ok output.ciphertext ∧
    (OutputCoin.ofBytes output.toBytes : Except Error (OutputCoin Ristretto.Point)) =
      .error (.lengthMismatch 9 65545) := by
  have hbytes : (ofZeros 65472).toBytes =
      List.replicate 9 0 ++ List.replicate 65536 (0 : UInt8) := by
    have hlength : Writer.nat16 65536 = List.replicate 2 0 := by decide
    have hcoin : (ofZeros 65472).coin.toBytes = List.replicate 7 0 := by decide +kernel
    rw [toBytes, toBytes_ciphertext_ofZeros, List.length_replicate, hlength, hcoin,
      ← List.replicate_add, ← List.replicate_add, ← List.replicate_add]
  have hrest : List.replicate 65536 (0 : UInt8) ≠ [] :=
    List.ne_nil_of_length_pos (by rw [List.length_replicate]; decide)
  refine ⟨ofZeros 65472, Coin.Origin.blank.reachable, ofBytes_zeros 65472, ?_⟩
  rw [hbytes, ofBytes_blank_append hrest, List.length_replicate]

end OutputCoin

end ConfidentialPayment
