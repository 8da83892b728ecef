/-!
# ConfidentialPayment.Error

Why an operation fails. Each constructor of `Error` is one cause with the data that its message
shows; `Error.message` is the only place where the wording stands. A failure inside a nested
field is wrapped once per enclosing field by `Error.malformed`, so the outermost field comes first
in the text.
-/

namespace ConfidentialPayment

/-- The proof systems and checks a verification failure can come from. -/
inductive ProofKind
  | signature
  | membership
  | hiddenSerial
  | revealedSerial
  | innerProduct
  | range
  | payment
deriving DecidableEq, Repr, Inhabited

/-- The name of a proof system as messages show it. -/
def ProofKind.name : ProofKind → String
  | .signature => "schnorr signature"
  | .membership => "one-out-of-many proof"
  | .hiddenSerial => "serial number privacy proof"
  | .revealedSerial => "serial number no-privacy proof"
  | .innerProduct => "inner product proof"
  | .range => "aggregated range proof"
  | .payment => "payment proof"

/-- The causes of failure. -/
inductive Error
  /-- 32 bytes that spell a number not below the group order. -/
  | invalidScalar
  /-- 32 bytes that encode no group element. -/
  | invalidPoint
  /-- A list or string of the wrong length. -/
  | lengthMismatch (expected actual : Nat)
  /-- An encoding that ends inside a field. -/
  | missingBytes (field : String) (needed remaining : Nat)
  /-- A field whose content is refused for the given cause. -/
  | malformed (field : String) (cause : Error)
  /-- A verification equation or shape check that does not hold. -/
  | rejected (proof : ProofKind) (statement : Nat)
  | emptyInput
  | ciphertextEmpty
  | ciphertextTooShort (length : Nat)
  | ringSizeMismatch (given expected : Nat)
  | ringIndexOutOfRange (index size : Nat)
  | valueNotPositive
  | tooManyOutputs (given max : Nat)
  | tooManyInputs (given max : Nat)
  | digestTextTooLong
  | digestTextNotHex
  | infoTooLong (length : Nat)
  | unbalanced
  | serialNumberRepeated
  | unknownCommitment (index : Nat)
  | decryptionFailed
  | overflow
deriving DecidableEq, Repr, Inhabited

/-- The text of a failure. -/
def Error.message : Error → String
  | .invalidScalar => "Bytes do not encode a canonical scalar"
  | .invalidPoint => "Bytes do not encode a valid group element"
  | .lengthMismatch expected actual => s!"Length mismatch: expected {expected}, got {actual}"
  | .missingBytes field needed remaining =>
    s!"Decoding {field} needs {needed} bytes but only {remaining} remain"
  | .malformed field cause => s!"Malformed {field}: " ++ cause.message
  | .rejected proof statement =>
    proof.name ++ s!" failed to verify statement {statement}"
  | .emptyInput => "Input to encrypt or decrypt is empty"
  | .ciphertextEmpty => "Hybrid ciphertext is empty"
  | .ciphertextTooShort length => s!"Ciphertext of {length} bytes is too short"
  | .ringSizeMismatch given expected =>
    s!"Commitment ring has {given} members, expected {expected}"
  | .ringIndexOutOfRange index size => s!"Index {index} is outside a ring of {size} members"
  | .valueNotPositive => "Range proof values must be positive"
  | .tooManyOutputs given max => s!"Too many outputs: {given} given, {max} allowed"
  | .tooManyInputs given max => s!"Too many inputs: {given} given, {max} allowed"
  | .digestTextTooLong => "Hash string exceeds the maximum hash size"
  | .digestTextNotHex => "Hash string is not valid hex"
  | .infoTooLong length => s!"Coin info of {length} bytes exceeds the maximum size"
  | .unbalanced => "Inputs and outputs do not balance"
  | .serialNumberRepeated => "Serial number is spent twice in one proof"
  | .unknownCommitment index => s!"Commitment {index} is unknown to the commitment store"
  | .decryptionFailed => "Error while trying to decrypt coin details"
  | .overflow => "Overflow while doing arithmetic operations"

end ConfidentialPayment
