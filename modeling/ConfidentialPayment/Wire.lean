import ConfidentialPayment.Suite

/-!
# ConfidentialPayment.Wire

Writing and reading encodings.

Counts and lengths are written in a fixed number of bytes, most significant first, and lose what
does not fit. A `Reader α` takes what it needs from the front of a cursor and leaves the rest. Every
step names the field that it reads, so a failure says where the encoding went wrong. `Reader.decode`
runs a reader on a whole string and refuses bytes that are left over.
-/

namespace ConfidentialPayment

/-! ## Writing -/

namespace Writer

/-- A number in one byte. -/
def nat8 (n : Nat) : Bytes := Bytes.ofNatBE 1 n

/-- A number in two bytes. -/
def nat16 (n : Nat) : Bytes := Bytes.ofNatBE 2 n

/-- A number in eight bytes. -/
def uint64 (n : UInt64) : Bytes := Bytes.ofNatBE 8 n.toNat

/-- Points one after the other. -/
def points {P : Type} [Suite P] (ps : List P) : Bytes := ps.flatMap Suite.encode

/-- Scalars one after the other. -/
def scalars (xs : List Scalar) : Bytes := xs.flatMap Scalar.toBytes

end Writer

/-! ## Reading -/

/-- A place in a byte string: how many bytes were read and which ones remain. -/
structure Cursor where
  offset : Nat
  rest : Bytes

/-- A program that reads from the front of a byte string. -/
abbrev Reader := StateT Cursor (Except Error)

namespace Reader

/-- Fails with a cause. -/
def fail {α : Type} (cause : Error) : Reader α := throw cause

/-- The result of a nested decoder, its failure attributed to a field. -/
def within {α : Type} (field : String) : Except Error α → Reader α
  | .ok a => pure a
  | .error cause => fail (.malformed field cause)

/-- Reads exactly `count` bytes. The check counts the bytes that are taken and not those that
remain, so a long string is not measured at every step. -/
def bytes (field : String) (count : Nat) : Reader Bytes := fun cursor =>
  let taken := cursor.rest.take count
  if taken.length = count then
    .ok (taken, ⟨cursor.offset + count, cursor.rest.drop count⟩)
  else
    .error (.missingBytes field count cursor.rest.length)

/-- Reads a number of one byte. -/
def nat8 (field : String) : Reader Nat := Bytes.toNatBE <$> bytes field 1

/-- Reads a number of two bytes, most significant first. -/
def nat16 (field : String) : Reader Nat := Bytes.toNatBE <$> bytes field 2

/-- Reads a number of eight bytes, most significant first. -/
def uint64 (field : String) : Reader UInt64 :=
  (fun bs => UInt64.ofNat (Bytes.toNatBE bs)) <$> bytes field 8

/-- Reads a point. -/
def point {P : Type} [Suite P] (field : String) : Reader P := do
  within field (readPoint (← bytes field pointLength))

/-- Reads a scalar. -/
def scalar (field : String) : Reader Scalar := do
  within field (Scalar.ofBytes (← bytes field Scalar.byteLength))

/-- Runs a reader `count` times. -/
def repeated {α : Type} (read : Reader α) : (count : Nat) → Reader (List α)
  | 0 => pure []
  | count + 1 => do
    let first ← read
    let others ← repeated read count
    return first :: others

/-- Reads `count` points. -/
def points {P : Type} [Suite P] (field : String) (count : Nat) : Reader (List P) :=
  repeated (point field) count

/-- Reads `count` scalars. -/
def scalars (field : String) (count : Nat) : Reader (List Scalar) := repeated (scalar field) count

/-- How many bytes remain. -/
def remaining : Reader Nat := return (← get).rest.length

/-- Refuses bytes that were not read. -/
def finish : Reader Unit := do
  let cursor ← get
  if cursor.rest.isEmpty then pure ()
  else fail (.lengthMismatch cursor.offset (cursor.offset + cursor.rest.length))

/-- What a reader makes of a whole string. -/
def decode {α : Type} (read : Reader α) (bs : Bytes) : Except Error α := do
  let (a, cursor) ← read.run ⟨0, bs⟩
  let _ ← finish.run cursor
  return a

/-- What a reader makes of a string of a fixed length. -/
def decodeFixed {α : Type} (length : Nat) (read : Reader α) (bs : Bytes) : Except Error α :=
  if bs.length = length then decode read bs else .error (.lengthMismatch length bs.length)

end Reader

end ConfidentialPayment
