import ConfidentialPayment.Bytes

/-!
# ConfidentialPayment.Bytes.Hex

Base sixteen text of byte strings: two digits a byte, the high half first. Writing uses lower
case; reading takes either case and refuses an odd number of digits and every other character.
-/

namespace ConfidentialPayment.Hex

/-- The digit of a number below sixteen, in lower case. -/
def digit (n : Nat) : Char :=
  if n < 10 then Char.ofNat ('0'.toNat + n) else Char.ofNat ('a'.toNat + (n - 10))

/-- The value of a digit of either case; only the 22 ASCII digits are accepted. -/
def value? (c : Char) : Option Nat :=
  if '0' ≤ c ∧ c ≤ '9' then some (c.toNat - '0'.toNat)
  else if 'a' ≤ c ∧ c ≤ 'f' then some (c.toNat - 'a'.toNat + 10)
  else if 'A' ≤ c ∧ c ≤ 'F' then some (c.toNat - 'A'.toNat + 10)
  else none

/-- The digits of a byte string, two a byte. -/
def digits (bs : Bytes) : List Char :=
  bs.flatMap fun b => [digit (b.toNat / 16), digit (b.toNat % 16)]

/-- The text of a byte string. -/
def encode (bs : Bytes) : String := String.ofList (digits bs)

/-- The bytes a list of digits spells. -/
def ofDigits? : List Char → Option Bytes
  | [] => some []
  | [_] => none
  | high :: low :: rest => do
    let h ← value? high
    let l ← value? low
    let bs ← ofDigits? rest
    pure (UInt8.ofNat (16 * h + l) :: bs)

/-- The bytes that digits given by their codes spell. -/
def ofCodes? (codes : Bytes) : Option Bytes :=
  ofDigits? (codes.map fun code => Char.ofNat code.toNat)

/-- The bytes a text spells. -/
def decode? (text : String) : Option Bytes := ofDigits? text.toList

end ConfidentialPayment.Hex
