import ConfidentialPayment.Bytes

/-!
# ConfidentialPayment.Cipher.Aes256

The block cipher AES with a 256-bit key, FIPS 197, in the encrypting direction: blocks of 16
bytes, byte `r + 4 * c` at row `r` and column `c`, fourteen rounds.

Only encryption is needed, since counter mode deciphers by enciphering counters again.
-/

namespace ConfidentialPayment.Cipher

/-- A block of a cipher. -/
abbrev Block := Vector UInt8 16

namespace Aes256

/-! ## The field of 256 elements -/

/-- A byte times `x`, modulo the polynomial of the cipher. -/
def timesX (b : UInt8) : UInt8 := if b &&& 0x80 = 0 then b <<< 1 else (b <<< 1) ^^^ 0x1b

/-- The product of two bytes, one bit of the first after the other. -/
def mul (a b : UInt8) : UInt8 :=
  ((List.range 8).foldl
    (fun (acc : UInt8 × UInt8) i =>
      (if a.toNat.testBit i then acc.1 ^^^ acc.2 else acc.1, timesX acc.2))
    (0, b)).1

/-- The inverse of a byte, zero for zero: the power with exponent 254. -/
def inverse (b : UInt8) : UInt8 :=
  let b2 := mul b b
  let b4 := mul b2 b2
  let b8 := mul b4 b4
  let b16 := mul b8 b8
  let b32 := mul b16 b16
  let b64 := mul b32 b32
  mul b2 (mul b4 (mul b8 (mul b16 (mul b32 (mul b64 (mul b64 b64))))))

/-- Rotation to the left. -/
def rotate (b count : UInt8) : UInt8 := (b <<< count) ||| (b >>> (8 - count))

/-- The substitution table: the inverse, then an affine map over bits. -/
def substitutions : Array UInt8 :=
  Array.ofFn fun i : Fin 256 =>
    let b := inverse (UInt8.ofNat i)
    b ^^^ rotate b 1 ^^^ rotate b 2 ^^^ rotate b 3 ^^^ rotate b 4 ^^^ 0x63

/-- The substitute of a byte. -/
def substitute (b : UInt8) : UInt8 := substitutions.getD b.toNat 0

/-! ## Round keys -/

/-- The next round key: every word is the word eight places earlier plus its predecessor, which is
substituted at the start of each half, and rotated as well at the start of a whole key.
`earlier` and `latest` are the last two round keys. -/
def nextRoundKey (earlier latest : Bytes) (constant : Option UInt8) : Bytes :=
  let last := latest.drop 12
  let first := match constant with
    | some c => Bytes.xor ((last.drop 1 ++ last.take 1).map substitute) [c, 0, 0, 0]
    | none => last.map substitute
  let w0 := Bytes.xor (earlier.take 4) first
  let w1 := Bytes.xor ((earlier.drop 4).take 4) w0
  let w2 := Bytes.xor ((earlier.drop 8).take 4) w1
  let w3 := Bytes.xor ((earlier.drop 12).take 4) w2
  w0 ++ w1 ++ w2 ++ w3

/-- The round keys after the last two, with the constants that are left to use. -/
def roundKeysFrom (earlier latest : Bytes) : List (Option UInt8) → List Bytes
  | [] => []
  | constant :: rest =>
    let next := nextRoundKey earlier latest constant
    next :: roundKeysFrom latest next rest

/-- The fifteen round keys of a 32-byte key. -/
def roundKeys (key : Bytes) : List Bytes :=
  key.take 16 :: key.drop 16 :: roundKeysFrom (key.take 16) (key.drop 16)
    [some 1, none, some 2, none, some 4, none, some 8, none, some 16, none, some 32, none, some 64]

/-! ## Rounds -/

/-- The sum with a round key. -/
def addKey (key : Bytes) (s : Block) : Block :=
  let bytes := key.toArray
  Vector.ofFn fun i => s[i] ^^^ bytes.getD i 0

/-- Substitutes every byte and rotates row `r` by `r` places to the left. -/
def shiftRows (s : Block) : Block :=
  Vector.ofFn fun i : Fin 16 =>
    substitute (s.getD ((i.val + 4 * (i.val % 4)) % 16) 0)

/-- Multiplies every column by the matrix of the cipher. -/
def mixColumns (s : Block) : Block :=
  Vector.ofFn fun i : Fin 16 =>
    let column := 4 * (i.val / 4)
    let at_ := fun k => s.getD (column + (i.val + k) % 4) 0
    timesX (at_ 0) ^^^ (timesX (at_ 1) ^^^ at_ 1) ^^^ at_ 2 ^^^ at_ 3

/-- All rounds but the first key addition. The last round does not mix columns. -/
def rounds (s : Block) : List Bytes → Block
  | [] => s
  | [key] => addKey key (shiftRows s)
  | key :: keys => rounds (addKey key (mixColumns (shiftRows s))) keys

end Aes256

/-- The cipher under a key of 32 bytes. -/
def aes256 (key : Bytes) : Block → Block :=
  match Aes256.roundKeys key with
  | [] => id
  | first :: rest => fun block => Aes256.rounds (Aes256.addKey first block) rest

end ConfidentialPayment.Cipher
