import ConfidentialPayment.Hash.Keccak
import ConfidentialPayment.Transcript

/-!
# ConfidentialPayment.Transcript.Strobe

From logs to challenge bytes.

1. `Strobe` is a duplex object over Keccak-f[1600] at the 128-bit security level: operations are
   separated by their flags and by the place where the previous operation began.
2. `Strobe.ofTranscript` replays a log: every message is framed by its label and its length, every
   challenge that was drawn leaves its trace.
3. `challengeBytes` squeezes the next challenge of a log, and `challengeScalar` reduces 64 such
   bytes. Both are functions of the log and the challenge's label alone.
-/

namespace ConfidentialPayment

/-- A duplex object: the sponge state, the next byte to be used, and where the running operation
began. -/
structure Strobe where
  state : Array UInt8
  position : Nat
  began : Nat

namespace Strobe

/-- The bytes of the state that operations may touch; the rest is capacity. -/
def rate : Nat := 166

/-! ## Flags of operations -/

/-- The operation sends data inward. -/
def inbound : UInt8 := 1
/-- The operation is bound to the application. -/
def application : UInt8 := 2
/-- The operation starts from a fresh block. -/
def cipher : UInt8 := 4
/-- The operation carries framing data rather than content. -/
def framing : UInt8 := 16

/-! ## The sponge -/

/-- Adds a byte to the state at an index. -/
def addAt (state : Array UInt8) (i : Nat) (b : UInt8) : Array UInt8 := state.modify i (· ^^^ b)

/-- Closes the current block and permutes the state. -/
def permute (s : Strobe) : Strobe :=
  let padded := addAt (addAt (addAt s.state s.position (UInt8.ofNat s.began)) (s.position + 1) 0x04)
    (rate + 1) 0x80
  ⟨(Hash.Keccak.permute padded.toList).toArray, 0, 0⟩

/-- Moves past the byte just used. -/
def advance (s : Strobe) : Strobe :=
  let next := { s with position := s.position + 1 }
  if next.position = rate then next.permute else next

/-- Absorbs bytes. -/
def absorb (s : Strobe) (bytes : Bytes) : Strobe :=
  bytes.foldl (fun s b => { s with state := addAt s.state s.position b }.advance) s

/-- Squeezes bytes, each of which is cleared from the state. -/
def squeeze : (count : Nat) → Strobe → Bytes × Strobe
  | 0, s => ([], s)
  | count + 1, s =>
    let b := s.state.getD s.position 0
    let cleared := s.state.modify s.position fun _ => 0
    let (bytes, s') := squeeze count { s with state := cleared }.advance
    (b :: bytes, s')

/-- Begins an operation: absorbs where the previous one began and the flags, and starts a fresh
block if the flags ask for it. -/
def openOperation (s : Strobe) (flags : UInt8) : Strobe :=
  let s' := { s with began := s.position + 1 }.absorb [UInt8.ofNat s.began, flags]
  if flags &&& cipher ≠ 0 ∧ s'.position ≠ 0 then s'.permute else s'

/-- Absorbs framing data. -/
def frame (s : Strobe) (bytes : Bytes) : Strobe :=
  (s.openOperation (framing ||| application)).absorb bytes

/-- The object bound to a protocol name. -/
def start (protocol : Bytes) : Strobe :=
  let header : Bytes := [1, UInt8.ofNat (rate + 2), 1, 0, 1, 96] ++ Bytes.ofText "STROBEv1.0.2"
  let state := Hash.Keccak.permute (header ++ List.replicate (Hash.Keccak.width - header.length) 0)
  (⟨state.toArray, 0, 0⟩ : Strobe).frame protocol

/-! ## Logs -/

/-- Frames a label and the length of what follows under it. -/
def frameLabel (s : Strobe) (label : String) (length : Nat) : Strobe :=
  (s.frame (Bytes.ofText label)).absorb (Bytes.ofNatLE 4 length)

/-- Absorbs a labelled message. -/
def message (s : Strobe) (label : String) (content : Bytes) : Strobe :=
  ((s.frameLabel label content.length).openOperation application).absorb content

/-- Draws labelled challenge bytes. -/
def draw (s : Strobe) (label : String) (count : Nat) : Bytes × Strobe :=
  squeeze count ((s.frameLabel label count).openOperation (inbound ||| application ||| cipher))

/-- The number of bytes behind a challenge scalar. -/
def challengeLength : Nat := 64

/-- The object after one more entry of a log. -/
def replay (s : Strobe) : Transcript.Entry → Strobe
  | .message label content => s.message label content
  | .challenge label => (s.draw label challengeLength).2

/-- The object that a log determines. -/
def ofTranscript (t : Transcript) : Strobe :=
  t.entries.foldl replay
    ((start (Bytes.ofText "Merlin v1.0")).message "dom-sep" (Bytes.ofText t.label))

end Strobe

namespace Transcript

/-- The bytes of the next challenge. -/
def challengeBytes (t : Transcript) (label : String) : Bytes :=
  ((Strobe.ofTranscript t).draw label Strobe.challengeLength).1

/-- The scalar of the next challenge. -/
def challengeScalar (t : Transcript) (label : String) : Scalar :=
  Scalar.ofWideBytes (t.challengeBytes label)

end Transcript

end ConfidentialPayment
