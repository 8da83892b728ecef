import ConfidentialPayment.Proofs.Machine.Decoding
import ConfidentialPayment.Proofs.Payment.RoundTrip
import ConfidentialPayment.Proofs.Wire.SelfDelimiting

/-!
# ConfidentialPayment.Proofs.Wire.Totality

Decoders are total, and most of them say themselves where their strings end.

The wire formats of the library are taken together as one family. Every decoder ends on every string
with a result or a refusal, also on the machine. Where the length of a string is fixed, or said by
the string, what is accepted can neither be cut off nor continued; signatures have two lengths, and
ciphertexts of messages have any, so these two need a length in front of them.
-/

namespace ConfidentialPayment

/-- The wire formats of the library. -/
inductive WireForm
  | membership
  | hiddenSerial
  | revealedSerial
  | argument
  | range
  | signature
  | elgamal
  | hybrid
  | coin
  | output
  | payment
deriving DecidableEq, Repr

namespace WireForm

/-- What the strings of a format encode. -/
def Content (P : Type) : WireForm → Type
  | membership => Membership.Proof P
  | hiddenSerial => SerialNumber.Hidden.Proof P
  | revealedSerial => SerialNumber.Revealed.Proof P
  | argument => InnerProduct.Proof P
  | range => RangeProof.Proof P
  | signature => Signature
  | elgamal => Elgamal.Ciphertext P
  | hybrid => Hybrid.Ciphertext P
  | coin => Coin P
  | output => OutputCoin P
  | payment => Payment.Proof P

/-- Whether a string of the format ends where it says. -/
def endsItself : WireForm → Bool
  | signature | hybrid => false
  | _ => true

variable {P : Type} [Suite P]

/-- The decoder of a format. -/
def decode : (form : WireForm) → Bytes → Except Error (form.Content P)
  | membership => Membership.Proof.ofBytes
  | hiddenSerial => SerialNumber.Hidden.Proof.ofBytes
  | revealedSerial => SerialNumber.Revealed.Proof.ofBytes
  | argument => InnerProduct.Proof.ofBytes
  | range => RangeProof.Proof.ofBytes
  | signature => Signature.ofBytes
  | elgamal => Elgamal.Ciphertext.ofBytes
  | hybrid => Hybrid.Ciphertext.ofBytes
  | coin => Coin.ofBytes
  | output => OutputCoin.ofBytes
  | payment => Payment.Proof.ofBytes

/-- The decoder of a format on the machine. -/
def decodeOnMachine : (form : WireForm) → Bytes → Machine (form.Content P)
  | membership => Machine.decodeMembership
  | hiddenSerial => Machine.decodeHiddenSerial
  | revealedSerial => Machine.decodeRevealedSerial
  | argument => Machine.decodeArgument
  | range => Machine.decodeRange
  | signature => Machine.decodeSignature
  | elgamal => Machine.decodeElgamal
  | hybrid => Machine.decodeHybrid
  | coin => Machine.decodeCoin
  | output => Machine.decodeOutput
  | payment => Machine.decodePayment

/-! ## Decoding on the machine -/

/-- Every decoder of the machine ends without a fault, and with the outcome of its counterpart. -/
theorem decodeOnMachine_eq (form : WireForm) {bs : Bytes} (h : bs.length < UInt64.size) :
    (form.decodeOnMachine bs : Machine (form.Content P)) = Machine.ofExcept (form.decode bs) := by
  cases form with
  | membership => exact Machine.decodeMembership_eq h
  | hiddenSerial => exact Machine.decodeHiddenSerial_eq h
  | revealedSerial => exact Machine.decodeRevealedSerial_eq h
  | argument => exact Machine.decodeArgument_eq h
  | range => exact Machine.decodeRange_eq h
  | signature => exact Machine.decodeSignature_eq bs
  | elgamal => exact Machine.decodeElgamal_eq bs
  | hybrid => exact Machine.decodeHybrid_eq bs
  | coin => exact Machine.decodeCoin_eq h
  | output => exact Machine.decodeOutput_eq h
  | payment => exact Machine.decodePayment_eq h

/-! ## Beginnings of strings -/

/-- A decoder of strings of one length accepts no other. -/
theorem length_of_decodeFixed {α : Type} {read : Reader α} {length : ℕ} {bs : Bytes} {a : α}
    (h : read.decodeFixed length bs = .ok a) : bs.length = length := by
  unfold Reader.decodeFixed at h
  split at h
  · assumption
  · cases h

/-- No string of a fixed length begins another one. -/
theorem eq_of_decodeFixed {α : Type} {read : Reader α} {length : ℕ} {bs bs' : Bytes} {a a' : α}
    (h : read.decodeFixed length bs = .ok a) (h' : read.decodeFixed length bs' = .ok a')
    (hbegins : bs <+: bs') : bs = bs' :=
  hbegins.eq_of_length ((length_of_decodeFixed h).trans (length_of_decodeFixed h').symm)

/-- Encrypted points have one length. -/
theorem length_of_decodeElgamal {bs : Bytes} {c : Elgamal.Ciphertext P}
    (h : Elgamal.Ciphertext.ofBytes bs = .ok c) :
    bs.length = Elgamal.Ciphertext.byteLength := by
  unfold Elgamal.Ciphertext.ofBytes at h
  split at h
  · assumption
  · cases h

/-- The check of the rounds comes after everything was read. -/
theorem decode_of_decodeRange {bs : Bytes} {proof : RangeProof.Proof P}
    (h : RangeProof.Proof.ofBytes bs = .ok proof) :
    ∃ proof, Reader.decode (RangeProof.Proof.reader : Reader (RangeProof.Proof P)) bs =
      .ok proof := by
  unfold RangeProof.Proof.ofBytes at h
  obtain ⟨proof, hread, -⟩ := bind_eq_ok.mp h
  exact ⟨proof, hread⟩

/-- In a format that ends itself no string that is accepted begins another one. -/
theorem eq_of_isPrefix (form : WireForm) (hform : form.endsItself = true) {bs bs' : Bytes}
    {a a' : form.Content P} (h : form.decode bs = .ok a) (h' : form.decode bs' = .ok a')
    (hbegins : bs <+: bs') : bs = bs' := by
  cases form with
  | membership => exact eq_of_decodeFixed h h' hbegins
  | hiddenSerial => exact eq_of_decodeFixed h h' hbegins
  | revealedSerial => exact eq_of_decodeFixed h h' hbegins
  | argument => exact InnerProduct.isLocal_reader.selfDelimiting.eq_of_isPrefix h h' hbegins
  | range =>
    obtain ⟨_, hread⟩ := decode_of_decodeRange h
    obtain ⟨_, hread'⟩ := decode_of_decodeRange h'
    exact RangeProof.isLocal_reader.selfDelimiting.eq_of_isPrefix hread hread' hbegins
  | signature => cases hform
  | elgamal =>
    exact hbegins.eq_of_length
      ((length_of_decodeElgamal h).trans (length_of_decodeElgamal h').symm)
  | hybrid => cases hform
  | coin => exact Coin.isLocal_reader.selfDelimiting.eq_of_isPrefix h h' hbegins
  | output => exact OutputCoin.isLocal_reader.selfDelimiting.eq_of_isPrefix h h' hbegins
  | payment => exact Payment.selfDelimiting_reader.eq_of_isPrefix h h' hbegins

/-! ## All formats -/

/-- Every decoder ends on every string in memory without a fault: with the result of the decoder
without bounds, or with its refusal. And where a format ends its strings itself, no accepted string
is the beginning of another one. -/
theorem decoders_are_total (form : WireForm) :
    (∀ bs : Bytes, bs.length < UInt64.size →
      (∀ fault, (form.decodeOnMachine bs : Machine (form.Content P)) ≠ Machine.fault fault) ∧
      (form.decodeOnMachine bs : Machine (form.Content P)) = Machine.ofExcept (form.decode bs)) ∧
    (form.endsItself = true → ∀ (bs bs' : Bytes) (a a' : form.Content P),
      form.decode bs = .ok a → form.decode bs' = .ok a' → bs <+: bs' → bs = bs') := by
  refine ⟨fun bs hbs => ?_, fun hform bs bs' a a' => eq_of_isPrefix form hform⟩
  have heq : (form.decodeOnMachine bs : Machine (form.Content P)) = _ := decodeOnMachine_eq form hbs
  exact ⟨fun fault => heq ▸ Machine.ofExcept_ne_fault _ fault, heq⟩

/-- A coin with all of its fields, and a private payment of two coins to two payees: the machine
decodes what is written of either, and no other accepted string begins with it. -/
theorem decoders_are_total_two :
    let gens := Generators.standard Ristretto.Point
    let table := GeneratorTable.neutral Ristretto.Point 128
    let tape : RandomSource := ⟨fun _ => .replicate 64 0, 0⟩
    let spent := Payment.firstCoin gens
    (coin.decodeOnMachine spent.toBytes : Machine (Coin Ristretto.Point)) = .ok spent ∧
    (∀ (bs : Bytes) (other : Coin Ristretto.Point), spent.toBytes <+: bs →
      coin.decode bs = .ok other → bs = spent.toBytes) ∧
    ∃ w rest proof rest', (Payment.Witness.ofRequest gens (.twoCoins gens true)).Gives tape w rest ∧
      (w.prove gens table).Gives rest proof rest' ∧
      (payment.decodeOnMachine proof.toBytes : Machine (Payment.Proof Ristretto.Point)) =
        .ok proof ∧
      ∀ (bs : Bytes) (other : Payment.Proof Ristretto.Point), proof.toBytes <+: bs →
        payment.decode bs = .ok other → bs = proof.toBytes := by
  intro gens table tape spent
  have hinfos := Payment.Request.length_info_twoCoins gens true
  have hcapacity : RangeProof.vectorLength 2 ≤ table.capacity := by
    rw [GeneratorTable.capacity_neutral]
    decide
  obtain ⟨w, rest, proof, rest', hw, hproof⟩ :=
    (Payment.Request.isComplete_twoCoins gens true).exists_proof gens hcapacity tape
  -- both are short enough for the memory, and both are read back
  have hinfo : spent.info.length ≤ Coin.maxInfoLength := hinfos spent (List.mem_cons_self ..)
  have hshort : spent.toBytes.length < UInt64.size :=
    Nat.lt_trans (Coin.spell_default spent ▸ Coin.length_spell_lt hinfo {}) (by decide)
  have hcoin : coin.decode spent.toBytes = .ok spent := Coin.ofBytes_toBytes hinfo
  have hwritable := (Payment.Proof.Arises.proved hinfos hw hproof).isWritable
  have hpayment : payment.decode proof.toBytes = .ok proof :=
    Payment.Proof.ofBytes_toBytes hwritable
  obtain ⟨hcoins, hcoinEnds⟩ := decoders_are_total (P := Ristretto.Point) coin
  obtain ⟨hpayments, hpaymentEnds⟩ := decoders_are_total (P := Ristretto.Point) payment
  refine ⟨?_, fun bs other hbegins h => (hcoinEnds rfl _ _ _ _ hcoin h hbegins).symm,
    w, rest, proof, rest', hw, hproof, ?_,
    fun bs other hbegins h => (hpaymentEnds rfl _ _ _ _ hpayment h hbegins).symm⟩
  · exact (hcoins _ hshort).2.trans (congrArg Machine.ofExcept hcoin)
  · exact (hpayments _ hwritable.length_toBytes_lt).2.trans (congrArg Machine.ofExcept hpayment)

/-- A signature of one length may begin one of the other. -/
example :
    (Signature.ofBytes (List.replicate 64 0)).isOk ∧
      (Signature.ofBytes (List.replicate 96 0)).isOk := by
  decide

end WireForm

end ConfidentialPayment
