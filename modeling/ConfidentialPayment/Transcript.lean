import ConfidentialPayment.Scalar

/-!
# ConfidentialPayment.Transcript

Fiat–Shamir transcripts as logs.

A transcript is the label of its protocol followed by everything the two parties agree on: the
labelled messages absorbed so far and the challenges drawn so far. Prover and verifier draw the
same challenge exactly because they hold the same log, and "this value is bound by the challenge"
is a statement about the messages of a log. How a log becomes challenge bytes is the subject of
`ConfidentialPayment.Transcript.Strobe`; nothing here depends on it.
-/

namespace ConfidentialPayment

/-- One entry of a transcript. -/
inductive Transcript.Entry
  /-- A labelled message that was absorbed. -/
  | message (label : String) (content : Bytes)
  /-- A labelled challenge that was drawn. -/
  | challenge (label : String)
deriving DecidableEq, Repr

/-- The protocol's label and all entries, oldest first. -/
structure Transcript where
  label : String
  entries : List Transcript.Entry
deriving DecidableEq, Repr

namespace Transcript

/-- The transcript of a protocol before its first message. -/
def start (label : String) : Transcript := ⟨label, []⟩

/-- The transcript after one more entry. -/
def record (t : Transcript) (entry : Entry) : Transcript :=
  { t with entries := t.entries ++ [entry] }

/-- Absorbs a message. -/
def absorb (t : Transcript) (label : String) (content : Bytes) : Transcript :=
  t.record (.message label content)

/-- Absorbs a number as eight bytes, little endian. -/
def absorbNat (t : Transcript) (label : String) (n : Nat) : Transcript :=
  t.absorb label (Bytes.ofNatLE 8 n)

/-- Absorbs a scalar in its canonical encoding. -/
def absorbScalar (t : Transcript) (label : String) (x : Scalar) : Transcript :=
  t.absorb label x.toBytes

/-- Separates an aggregated range proof of `count` values of `bits` bits from what follows. -/
def openRangeProof (t : Transcript) (bits count : Nat) : Transcript :=
  ((t.absorb "dom-sep" (Bytes.ofText "rangeproof v1")).absorbNat "n" bits).absorbNat "m" count

/-- Separates an inner product argument over vectors of the given length from what follows. -/
def openInnerProduct (t : Transcript) (length : Nat) : Transcript :=
  (t.absorb "dom-sep" (Bytes.ofText "ipp v1")).absorbNat "n" length

end Transcript

end ConfidentialPayment
