import ConfidentialPayment.Bytes

/-!
# ConfidentialPayment.Hash.Sha2

The hash functions SHA-256 and SHA-512 of FIPS 180-4.

1. Both pad a message with a one bit, zero bits up to the next block boundary less the length field,
   and the bit length of the message as a big-endian number. A padded message is a whole number of
   blocks, and `blocks` cuts it into them.
2. SHA-256 has 64-byte blocks, eight 32-bit words of state, 64 rounds a block, and a digest of 32
   bytes; SHA-512 has 128-byte blocks, eight 64-bit words, 80 rounds, and a digest of 64 bytes.
-/

namespace ConfidentialPayment.Hash

/-! ## Padding -/

/-- `message` padded for blocks of `blockSize` bytes with a length field of `lengthSize` bytes. -/
def padded (blockSize lengthSize : Nat) (message : Bytes) : Bytes :=
  let zeros := (blockSize - (message.length + 1 + lengthSize) % blockSize) % blockSize
  message ++ 0x80 :: List.replicate zeros 0 ++ Bytes.ofNatBE lengthSize (8 * message.length)

/-- The blocks of the padded message. -/
def blocks (blockSize lengthSize : Nat) (message : Bytes) : List Bytes :=
  Bytes.chunks blockSize (padded blockSize lengthSize message)

/-! ## SHA-256 -/

namespace Sha256

/-- The eight working words. -/
structure State where
  a : UInt32
  b : UInt32
  c : UInt32
  d : UInt32
  e : UInt32
  f : UInt32
  g : UInt32
  h : UInt32

/-- The words a message starts from: the fractional parts of the square roots of the first eight
primes. -/
def start : State :=
  ⟨0x6a09e667, 0xbb67ae85, 0x3c6ef372, 0xa54ff53a, 0x510e527f, 0x9b05688c, 0x1f83d9ab, 0x5be0cd19⟩

/-- The round constants: the fractional parts of the cube roots of the first 64 primes. -/
def roundConstants : List UInt32 :=
  [0x428a2f98, 0x71374491, 0xb5c0fbcf, 0xe9b5dba5, 0x3956c25b, 0x59f111f1, 0x923f82a4, 0xab1c5ed5,
   0xd807aa98, 0x12835b01, 0x243185be, 0x550c7dc3, 0x72be5d74, 0x80deb1fe, 0x9bdc06a7, 0xc19bf174,
   0xe49b69c1, 0xefbe4786, 0x0fc19dc6, 0x240ca1cc, 0x2de92c6f, 0x4a7484aa, 0x5cb0a9dc, 0x76f988da,
   0x983e5152, 0xa831c66d, 0xb00327c8, 0xbf597fc7, 0xc6e00bf3, 0xd5a79147, 0x06ca6351, 0x14292967,
   0x27b70a85, 0x2e1b2138, 0x4d2c6dfc, 0x53380d13, 0x650a7354, 0x766a0abb, 0x81c2c92e, 0x92722c85,
   0xa2bfe8a1, 0xa81a664b, 0xc24b8b70, 0xc76c51a3, 0xd192e819, 0xd6990624, 0xf40e3585, 0x106aa070,
   0x19a4c116, 0x1e376c08, 0x2748774c, 0x34b0bcb5, 0x391c0cb3, 0x4ed8aa4a, 0x5b9cca4f, 0x682e6ff3,
   0x748f82ee, 0x78a5636f, 0x84c87814, 0x8cc70208, 0x90befffa, 0xa4506ceb, 0xbef9a3f7, 0xc67178f2]

/-- Rotation to the right. -/
@[inline] def rotate (x count : UInt32) : UInt32 := (x >>> count) ||| (x <<< (32 - count))

/-- The 64 schedule words of a block: its sixteen words, then each word from four earlier ones. -/
def schedule (block : Bytes) : Array UInt32 :=
  let words := (Bytes.chunks 4 block).map fun w => UInt32.ofNat (Bytes.toNatBE w)
  (List.range 48).foldl
    (fun ws i =>
      let early := ws.getD (i + 1) 0
      let late := ws.getD (i + 14) 0
      let mixEarly := rotate early 7 ^^^ rotate early 18 ^^^ (early >>> 3)
      let mixLate := rotate late 17 ^^^ rotate late 19 ^^^ (late >>> 10)
      ws.push (ws.getD i 0 + mixEarly + ws.getD (i + 9) 0 + mixLate))
    words.toArray

/-- One round with the sum of its constant and its schedule word. -/
def round (s : State) (input : UInt32) : State :=
  let choose := (s.e &&& s.f) ^^^ (~~~s.e &&& s.g)
  let majority := (s.a &&& s.b) ^^^ (s.a &&& s.c) ^^^ (s.b &&& s.c)
  let mixE := rotate s.e 6 ^^^ rotate s.e 11 ^^^ rotate s.e 25
  let mixA := rotate s.a 2 ^^^ rotate s.a 13 ^^^ rotate s.a 22
  let t := s.h + mixE + choose + input
  ⟨t + mixA + majority, s.a, s.b, s.c, s.d + t, s.e, s.f, s.g⟩

/-- The state after a block. -/
def absorb (s : State) (block : Bytes) : State :=
  let r := (List.zipWith (· + ·) roundConstants (schedule block).toList).foldl round s
  ⟨s.a + r.a, s.b + r.b, s.c + r.c, s.d + r.d, s.e + r.e, s.f + r.f, s.g + r.g, s.h + r.h⟩

/-- The digest of a message, 32 bytes. -/
def hash (message : Bytes) : Bytes :=
  let s := (blocks 64 8 message).foldl absorb start
  [s.a, s.b, s.c, s.d, s.e, s.f, s.g, s.h].flatMap fun w => Bytes.ofNatBE 4 w.toNat

/-- A digest of the short hash has 32 bytes. -/
@[simp] theorem length_hash (message : Bytes) : (hash message).length = 32 := by
  simp [hash]

end Sha256

/-! ## SHA-512 -/

namespace Sha512

/-- The eight working words. -/
structure State where
  a : UInt64
  b : UInt64
  c : UInt64
  d : UInt64
  e : UInt64
  f : UInt64
  g : UInt64
  h : UInt64

/-- The words a message starts from: the fractional parts of the square roots of the first eight
primes. -/
def start : State :=
  ⟨0x6a09e667f3bcc908, 0xbb67ae8584caa73b, 0x3c6ef372fe94f82b, 0xa54ff53a5f1d36f1,
   0x510e527fade682d1, 0x9b05688c2b3e6c1f, 0x1f83d9abfb41bd6b, 0x5be0cd19137e2179⟩

/-- The round constants: the fractional parts of the cube roots of the first eighty primes. -/
def roundConstants : List UInt64 :=
  [0x428a2f98d728ae22, 0x7137449123ef65cd, 0xb5c0fbcfec4d3b2f, 0xe9b5dba58189dbbc,
   0x3956c25bf348b538, 0x59f111f1b605d019, 0x923f82a4af194f9b, 0xab1c5ed5da6d8118,
   0xd807aa98a3030242, 0x12835b0145706fbe, 0x243185be4ee4b28c, 0x550c7dc3d5ffb4e2,
   0x72be5d74f27b896f, 0x80deb1fe3b1696b1, 0x9bdc06a725c71235, 0xc19bf174cf692694,
   0xe49b69c19ef14ad2, 0xefbe4786384f25e3, 0x0fc19dc68b8cd5b5, 0x240ca1cc77ac9c65,
   0x2de92c6f592b0275, 0x4a7484aa6ea6e483, 0x5cb0a9dcbd41fbd4, 0x76f988da831153b5,
   0x983e5152ee66dfab, 0xa831c66d2db43210, 0xb00327c898fb213f, 0xbf597fc7beef0ee4,
   0xc6e00bf33da88fc2, 0xd5a79147930aa725, 0x06ca6351e003826f, 0x142929670a0e6e70,
   0x27b70a8546d22ffc, 0x2e1b21385c26c926, 0x4d2c6dfc5ac42aed, 0x53380d139d95b3df,
   0x650a73548baf63de, 0x766a0abb3c77b2a8, 0x81c2c92e47edaee6, 0x92722c851482353b,
   0xa2bfe8a14cf10364, 0xa81a664bbc423001, 0xc24b8b70d0f89791, 0xc76c51a30654be30,
   0xd192e819d6ef5218, 0xd69906245565a910, 0xf40e35855771202a, 0x106aa07032bbd1b8,
   0x19a4c116b8d2d0c8, 0x1e376c085141ab53, 0x2748774cdf8eeb99, 0x34b0bcb5e19b48a8,
   0x391c0cb3c5c95a63, 0x4ed8aa4ae3418acb, 0x5b9cca4f7763e373, 0x682e6ff3d6b2b8a3,
   0x748f82ee5defb2fc, 0x78a5636f43172f60, 0x84c87814a1f0ab72, 0x8cc702081a6439ec,
   0x90befffa23631e28, 0xa4506cebde82bde9, 0xbef9a3f7b2c67915, 0xc67178f2e372532b,
   0xca273eceea26619c, 0xd186b8c721c0c207, 0xeada7dd6cde0eb1e, 0xf57d4f7fee6ed178,
   0x06f067aa72176fba, 0x0a637dc5a2c898a6, 0x113f9804bef90dae, 0x1b710b35131c471b,
   0x28db77f523047d84, 0x32caab7b40c72493, 0x3c9ebe0a15c9bebc, 0x431d67c49c100d4c,
   0x4cc5d4becb3e42b6, 0x597f299cfc657e2a, 0x5fcb6fab3ad6faec, 0x6c44198c4a475817]

/-- Rotation to the right. -/
@[inline] def rotate (x count : UInt64) : UInt64 := (x >>> count) ||| (x <<< (64 - count))

/-- The eighty schedule words of a block: its sixteen words, then each word from four earlier
ones. -/
def schedule (block : Bytes) : Array UInt64 :=
  let words := (Bytes.chunks 8 block).map fun w => UInt64.ofNat (Bytes.toNatBE w)
  (List.range 64).foldl
    (fun ws i =>
      let early := ws.getD (i + 1) 0
      let late := ws.getD (i + 14) 0
      let mixEarly := rotate early 1 ^^^ rotate early 8 ^^^ (early >>> 7)
      let mixLate := rotate late 19 ^^^ rotate late 61 ^^^ (late >>> 6)
      ws.push (ws.getD i 0 + mixEarly + ws.getD (i + 9) 0 + mixLate))
    words.toArray

/-- One round with the sum of its constant and its schedule word. -/
def round (s : State) (input : UInt64) : State :=
  let choose := (s.e &&& s.f) ^^^ (~~~s.e &&& s.g)
  let majority := (s.a &&& s.b) ^^^ (s.a &&& s.c) ^^^ (s.b &&& s.c)
  let mixE := rotate s.e 14 ^^^ rotate s.e 18 ^^^ rotate s.e 41
  let mixA := rotate s.a 28 ^^^ rotate s.a 34 ^^^ rotate s.a 39
  let t := s.h + mixE + choose + input
  ⟨t + mixA + majority, s.a, s.b, s.c, s.d + t, s.e, s.f, s.g⟩

/-- The state after a block. -/
def absorb (s : State) (block : Bytes) : State :=
  let r := (List.zipWith (· + ·) roundConstants (schedule block).toList).foldl round s
  ⟨s.a + r.a, s.b + r.b, s.c + r.c, s.d + r.d, s.e + r.e, s.f + r.f, s.g + r.g, s.h + r.h⟩

/-- The digest of a message, 64 bytes. -/
def hash (message : Bytes) : Bytes :=
  let s := (blocks 128 16 message).foldl absorb start
  [s.a, s.b, s.c, s.d, s.e, s.f, s.g, s.h].flatMap fun w => Bytes.ofNatBE 8 w.toNat

/-- A digest of the long hash has 64 bytes. -/
@[simp] theorem length_hash (message : Bytes) : (hash message).length = 64 := by
  simp [hash]

end Sha512

end ConfidentialPayment.Hash
