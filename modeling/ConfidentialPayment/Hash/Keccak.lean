import ConfidentialPayment.Bytes

/-!
# ConfidentialPayment.Hash.Keccak

The permutation Keccak-f[1600] of FIPS 202 on 200 bytes: 25 lanes of 64 bits, lane `x + 5 * y` at
column `x` and row `y`, little endian, 24 rounds.
-/

namespace ConfidentialPayment.Hash.Keccak

/-- The number of bytes that the permutation works on. -/
def width : Nat := 200

/-- The 25 lanes. -/
abbrev Lanes := Array UInt64

/-- The constants that break the symmetry of the rounds. -/
def roundConstants : List UInt64 :=
  [0x0000000000000001, 0x0000000000008082, 0x800000000000808a, 0x8000000080008000,
   0x000000000000808b, 0x0000000080000001, 0x8000000080008081, 0x8000000000008009,
   0x000000000000008a, 0x0000000000000088, 0x0000000080008009, 0x000000008000000a,
   0x000000008000808b, 0x800000000000008b, 0x8000000000008089, 0x8000000000008003,
   0x8000000000008002, 0x8000000000000080, 0x000000000000800a, 0x800000008000000a,
   0x8000000080008081, 0x8000000000008080, 0x0000000080000001, 0x8000000080008008]

/-- How far each lane is rotated. -/
def rotations : Array UInt64 :=
  #[0, 1, 62, 28, 27, 36, 44, 6, 55, 20, 3, 10, 43, 25, 39, 41, 45, 15, 21, 8, 18, 2, 61, 56, 14]

/-- Rotation to the left; shift amounts count modulo 64. -/
@[inline] def rotate (x count : UInt64) : UInt64 := (x <<< count) ||| (x >>> (64 - count))

/-- The lane at an index, zero outside the state. -/
@[inline] def lane (s : Lanes) (i : Nat) : UInt64 := s.getD i 0

/-- Adds to every lane the parities of two neighbouring columns. -/
def theta (s : Lanes) : Lanes :=
  let parity : Lanes := Array.ofFn fun x : Fin 5 =>
    lane s x ^^^ lane s (x + 5) ^^^ lane s (x + 10) ^^^ lane s (x + 15) ^^^ lane s (x + 20)
  Array.ofFn fun i : Fin 25 =>
    lane s i ^^^ lane parity ((i.val + 4) % 5) ^^^ rotate (lane parity ((i.val + 1) % 5)) 1

/-- Rotates every lane and moves it to its new place. -/
def rhoPi (s : Lanes) : Lanes :=
  Array.ofFn fun i : Fin 25 =>
    let source := (i.val % 5 + 3 * (i.val / 5)) % 5 + 5 * (i.val % 5)
    rotate (lane s source) (lane rotations source)

/-- Combines every lane with the next two of its row. -/
def chi (s : Lanes) : Lanes :=
  Array.ofFn fun i : Fin 25 =>
    let row := 5 * (i.val / 5)
    lane s i ^^^ (~~~lane s (row + (i.val + 1) % 5) &&& lane s (row + (i.val + 2) % 5))

/-- One round. -/
def round (s : Lanes) (constant : UInt64) : Lanes :=
  (chi (rhoPi (theta s))).modify 0 (· ^^^ constant)

/-- The permutation on lanes. -/
def permuteLanes (s : Lanes) : Lanes := roundConstants.foldl round s

/-- The permutation on bytes. -/
def permute (bytes : Bytes) : Bytes :=
  let lanes := (Bytes.chunks 8 bytes).map fun w => UInt64.ofNat (Bytes.toNatLE w)
  (permuteLanes lanes.toArray).toList.flatMap fun w => Bytes.ofNatLE 8 w.toNat

end ConfidentialPayment.Hash.Keccak
