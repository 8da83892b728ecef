import ConfidentialPayment.Machine
import ConfidentialPayment.Suite

/-!
# ConfidentialPayment.Machine.Reader

Reading encodings from a byte string in memory.

A `SliceReader α` does on the machine what a `Reader α` does: it keeps the whole string and the
place up to which it was read, and cuts every part out of the string.
-/

namespace ConfidentialPayment

/-- A byte string and the number of its bytes that were read. -/
structure SliceCursor where
  bytes : Bytes
  offset : Nat

/-- A program that reads from a byte string in memory. -/
abbrev SliceReader := StateT SliceCursor Machine

namespace SliceReader

/-- A step that reads nothing. -/
def lift {α : Type} (computation : Machine α) : SliceReader α := StateT.lift computation

/-- Fails with a cause. -/
def fail {α : Type} (cause : Error) : SliceReader α := lift (Machine.refuse cause)

/-- The result of a nested decoder, its refusal attributed to a field. -/
def within {α : Type} (field : String) (computation : Machine α) : SliceReader α :=
  lift (Machine.within field computation)

/-- How many bytes remain. -/
def remaining : SliceReader Nat := do
  let cursor ← get
  lift (Machine.sub cursor.bytes.length cursor.offset)

/-- Reads exactly `count` bytes. -/
def bytes (field : String) (count : Nat) : SliceReader Bytes := do
  let left ← remaining
  if left < count then fail (.missingBytes field count left)
  else
    let cursor ← get
    let stop ← lift (Machine.add cursor.offset count)
    let taken ← lift (Machine.slice cursor.bytes cursor.offset stop)
    set { cursor with offset := stop }
    return taken

/-- Reads a number of one byte. -/
def nat8 (field : String) : SliceReader Nat := do
  let bs ← bytes field 1
  let byte ← lift (Machine.get bs 0)
  return byte.toNat

/-- Reads a number of two bytes, most significant first. -/
def nat16 (field : String) : SliceReader Nat := do
  let bs ← bytes field 2
  let high ← lift (Machine.get bs 0)
  let low ← lift (Machine.get bs 1)
  return Bytes.toNatBE [high, low]

/-- Reads a number of eight bytes, most significant first. -/
def uint64 (field : String) : SliceReader UInt64 := do
  let bs ← bytes field 8
  let buffer ← lift (Machine.copy 8 bs)
  return UInt64.ofNat (Bytes.toNatBE buffer)

/-- Reads a point. -/
def point {P : Type} [Suite P] (field : String) : SliceReader P := do
  let bs ← bytes field pointLength
  within field (Machine.ofExcept (readPoint bs))

/-- Reads a scalar. -/
def scalar (field : String) : SliceReader Scalar := do
  let bs ← bytes field Scalar.byteLength
  within field (Machine.ofExcept (Scalar.ofBytes bs))

/-- Runs a reader `count` times. -/
def repeated {α : Type} (read : SliceReader α) : (count : Nat) → SliceReader (List α)
  | 0 => pure []
  | count + 1 => do
    let first ← read
    let others ← repeated read count
    return first :: others

/-- Reads `count` points. -/
def points {P : Type} [Suite P] (field : String) (count : Nat) : SliceReader (List P) :=
  repeated (point field) count

/-- Reads `count` scalars. -/
def scalars (field : String) (count : Nat) : SliceReader (List Scalar) :=
  repeated (scalar field) count

/-- Refuses bytes that were not read. -/
def finish : SliceReader Unit := do
  let left ← remaining
  let cursor ← get
  if left ≠ 0 then fail (.lengthMismatch cursor.offset cursor.bytes.length)

/-- What a reader makes of a whole string. -/
def decode {α : Type} (read : SliceReader α) (bs : Bytes) : Machine α := do
  let (a, cursor) ← read.run ⟨bs, 0⟩
  let _ ← finish.run cursor
  return a

/-- What a reader makes of a string of a fixed length. -/
def decodeFixed {α : Type} (length : Nat) (read : SliceReader α) (bs : Bytes) : Machine α :=
  if bs.length = length then decode read bs
  else Machine.refuse (.lengthMismatch length bs.length)

end SliceReader

end ConfidentialPayment
