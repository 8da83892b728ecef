import ConfidentialPayment.Bytes
import ConfidentialPayment.Error
import ConfidentialPayment.Text.Quoted

/-!
# ConfidentialPayment.Envelope

How encoded proofs travel inside other formats.

A proof is always its own encoding; an envelope says how the bytes are handed over: as they are, as
a list of numbers, or behind their length in eight bytes, least significant first. A text is never
a proof. Opening an envelope fails either for the sake of the envelope or for that of the proof
inside.
-/

namespace ConfidentialPayment

/-- The ways in which an encoded proof is handed over. -/
inductive Envelope
  | bytes (content : Bytes)
  | numbers (content : List Int)
  | framed (content : Bytes)
  | text (content : String)
deriving DecidableEq, Repr

namespace Envelope

/-- Why an envelope does not open. -/
inductive Failure
  /-- The content is refused. -/
  | content (cause : Error)
  /-- A number that is no byte. -/
  | notByte (number : Int)
  /-- A text in place of a proof. -/
  | notProof (given : String) (kind : ProofKind)
  /-- A frame that ends inside the length. -/
  | truncatedLength
  /-- A frame that ends inside the content. -/
  | truncatedContent
deriving DecidableEq, Repr

/-! ## Messages -/

/-- The indefinite article of a kind of proof. -/
def article : ProofKind → String
  | .innerProduct | .range => "an"
  | _ => "a"

/-- The text of a failure. -/
def Failure.message : Failure → String
  | content cause => cause.message
  | notByte number => "invalid value: integer `" ++ toString number ++ "`, expected u8"
  | notProof given kind =>
    "invalid type: string " ++ Text.quote given ++ ", expected " ++ article kind ++ " " ++ kind.name
  | truncatedLength => "io error: unexpected end of file"
  | truncatedContent => "io error: "

/-! ## Opening and closing -/

/-- The length of an encoded length. -/
def lengthWidth : Nat := 8

/-- A string behind its length. -/
def frame (content : Bytes) : Bytes := Bytes.ofNatLE lengthWidth content.length ++ content

/-- The string at the front of a frame; what comes after it is ignored. -/
def unframe (bs : Bytes) : Except Failure Bytes :=
  let encoded := bs.take lengthWidth
  let length := Bytes.toNatLE encoded
  let content := (bs.drop lengthWidth).take length
  if encoded.length < lengthWidth then .error .truncatedLength
  else if content.length < length then .error .truncatedContent
  else .ok content

/-- The byte that a number is. -/
def byteOf (number : Int) : Except Failure UInt8 :=
  if 0 ≤ number ∧ number < 256 then .ok (UInt8.ofNat number.toNat) else .error (.notByte number)

/-- The encoded proof in an envelope. -/
def contentOf (kind : ProofKind) : Envelope → Except Failure Bytes
  | bytes content => .ok content
  | numbers content => content.mapM byteOf
  | framed content => unframe content
  | text content => .error (.notProof content kind)

/-- The proof in an envelope. -/
def decode {α : Type} (kind : ProofKind) (ofBytes : Bytes → Except Error α) (e : Envelope) :
    Except Failure α := do
  let content ← e.contentOf kind
  (ofBytes content).mapError .content

end Envelope

end ConfidentialPayment
