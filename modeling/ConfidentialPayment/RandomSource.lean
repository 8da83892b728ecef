import ConfidentialPayment.Suite

/-!
# ConfidentialPayment.RandomSource

Random bytes as an endless tape, and the programs that read it.

1. A `RandomSource` is a tape, given in blocks of 64 bytes, and the number of bytes already read.
   What a program draws is a function of the source, and a drawn byte is never read again.
2. `Draw α` is a program that reads the tape and gives an `α`; `DrawExcept α` may also fail, and
   then the bytes that it read stay read.
3. `ofSeed` is the tape of hashes of a seed and a counter, `ofCycle` repeats a string for ever.
-/

namespace ConfidentialPayment

/-- The length of a block of a tape. -/
def RandomSource.blockLength : Nat := 64

/-- An endless tape of bytes and the place of the next one. -/
structure RandomSource where
  block : Nat → Vector UInt8 RandomSource.blockLength
  position : Nat

/-- A program that draws random bytes. -/
abbrev Draw := StateM RandomSource

/-- A program that draws random bytes and may fail. -/
abbrev DrawExcept := ExceptT Error Draw

namespace RandomSource

/-! ## Tapes -/

/-- The first 64 bytes of a string, filled up with zeros. -/
def blockOf (bs : Bytes) : Vector UInt8 blockLength :=
  Vector.ofFn fun i => bs.getD i 0

/-- The tape of the SHA-512 digests of the seed followed by 0, 1, 2, … in eight bytes. -/
def ofSeed (seed : Bytes) : RandomSource :=
  ⟨fun i => blockOf (Hash.Sha512.hash (seed ++ Bytes.ofNatLE 8 i)), 0⟩

/-- The tape that repeats a string for ever; the tape of the empty string is all zeros. -/
def ofCycle (pattern : Bytes) : RandomSource :=
  let bytes := pattern.toArray
  ⟨fun i => Vector.ofFn fun j => bytes.getD ((blockLength * i + j.val) % bytes.size) 0, 0⟩

/-! ## Reading -/

/-- The bytes of a tape from a place on, `count` of them. -/
def bytesAt (source : RandomSource) (place count : Nat) : Bytes :=
  let first := place / blockLength
  let last := (place + count + blockLength - 1) / blockLength
  let span := (List.range (last - first)).flatMap fun i => (source.block (first + i)).toList
  (span.drop (place % blockLength)).take count

/-- Reads the next `count` bytes. -/
def take (count : Nat) : Draw Bytes := fun source =>
  (source.bytesAt source.position count, { source with position := source.position + count })

/-- Reads a uniform scalar: 64 bytes, reduced. -/
def scalar : Draw Scalar := Scalar.ofWideBytes <$> take 64

/-- Reads a uniform point: 64 bytes, mapped to the group. -/
def point {P : Type} [Suite P] : Draw P := Suite.ofUniform <$> take 64

/-- Runs a program `count` times and collects its results. -/
def listOf {α : Type} (draw : Draw α) : (count : Nat) → Draw (List α)
  | 0 => pure []
  | count + 1 => do
    let first ← draw
    let others ← listOf draw count
    return first :: others

/-- Runs a program `count` times and collects its results in a vector. -/
def vectorOf {α : Type} (draw : Draw α) : (count : Nat) → Draw (Vector α count)
  | 0 => pure #v[]
  | count + 1 => do
    let earlier ← vectorOf draw count
    return earlier.push (← draw)

/-- Reads a vector of uniform scalars. -/
def scalarVector (count : Nat) : Draw (Vector Scalar count) := vectorOf scalar count

end RandomSource

/-- Fails with a cause. -/
def DrawExcept.fail {α : Type} (cause : Error) : DrawExcept α := throw cause

/-- Passes on a result that needs no random bytes. -/
def DrawExcept.ofExcept {α : Type} : Except Error α → DrawExcept α
  | .ok a => pure a
  | .error cause => throw cause

end ConfidentialPayment
