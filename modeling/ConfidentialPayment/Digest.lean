import ConfidentialPayment.Bytes.Hex
import ConfidentialPayment.Error
import ConfidentialPayment.Hash.Sha2

/-!
# ConfidentialPayment.Digest

The 32-byte digest that a payment signature commits to, and its text.

The text of a digest is the number that its bytes spell, least significant byte first, written in
64 digits of base 16. Reading takes up to 64 digits of either case, with zeros understood in
front.
-/

namespace ConfidentialPayment

/-- The length of a digest. -/
def Digest.byteLength : Nat := 32

/-- A string of 32 bytes. -/
structure Digest where
  bytes : Bytes
  length_bytes : bytes.length = Digest.byteLength
deriving DecidableEq

namespace Digest

/-- The most digits a text may have. -/
def maxTextLength : Nat := 2 * byteLength

/-- The digest of a message. -/
def hash (message : Bytes) : Digest := ⟨Hash.Sha256.hash message, Hash.Sha256.length_hash message⟩

/-- Reads the bytes of a digest. -/
def ofBytes (bs : Bytes) : Except Error Digest :=
  if h : bs.length = byteLength then .ok ⟨bs, h⟩
  else .error (.lengthMismatch byteLength bs.length)

/-- The text of a digest. -/
def toText (d : Digest) : String := Hex.encode d.bytes.reverse

/-- The text of a digest marked as such. -/
def toMarkedText (d : Digest) : String := "Hash(" ++ d.toText ++ ")"

/-- Zeros in front of a text up to the most digits, counted in characters. -/
def padText (text : String) : String := String.ofList (text.toList.leftpad maxTextLength '0')

/-- Reads the text of a digest. Its length counts in bytes of UTF-8, and so do its digits once the
zeros are in front of it: a character of several bytes is none. -/
def ofText (text : String) : Except Error Digest :=
  if text.utf8ByteSize > maxTextLength then .error .digestTextTooLong
  else
    match Hex.ofCodes? (Bytes.ofText (padText text)) with
    | some bs =>
      if h : bs.reverse.length = byteLength then .ok ⟨bs.reverse, h⟩ else .error .digestTextNotHex
    | none => .error .digestTextNotHex

end Digest

end ConfidentialPayment
