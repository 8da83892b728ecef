import ConfidentialPayment.Error
import ConfidentialPayment.PowerOfTwo

/-!
# ConfidentialPayment.Machine

Computations with words of 64 bits and lists of a fixed length.

The other modules compute with numbers and lists that have no bounds. On a machine a sum may not fit
into its word, and an access may miss its list: such a computation ends with a `Fault`, which is
neither a result nor a refusal. Here every operation that can fault says so; words are numbers below
`UInt64.size`.
-/

namespace ConfidentialPayment

/-- Why a machine cannot go on. -/
inductive Fault
  /-- A sum, a product or a power of two that is no word. -/
  | overflow
  /-- A difference below zero. -/
  | underflow
  /-- A shift by as many bits as a word has, or more. -/
  | shift
  /-- An entry or a slice that is not in its list. -/
  | range
  /-- Two lists of different lengths where one length is required. -/
  | lengths
deriving DecidableEq, Repr

/-- How a computation ends without a result. -/
inductive Stop
  | refused (cause : Error)
  | faulted (fault : Fault)
deriving DecidableEq, Repr

/-- A computation on the machine. -/
abbrev Machine := Except Stop

namespace Machine

/-- Ends with a fault. -/
def fault {α : Type} (fault : Fault) : Machine α := .error (.faulted fault)

/-- Refuses an input. -/
def refuse {α : Type} (cause : Error) : Machine α := .error (.refused cause)

/-- A computation that cannot fault. -/
def ofExcept {α : Type} (result : Except Error α) : Machine α := result.mapError .refused

/-- A computation whose refusals are attributed to a field. -/
def within {α : Type} (field : String) (computation : Machine α) : Machine α :=
  computation.mapError fun
    | .refused cause => .refused (.malformed field cause)
    | .faulted fault => .faulted fault

/-! ## Words -/

/-- The number of bits of a word. -/
def wordBits : Nat := 64

/-- The sum of two words. -/
def add (a b : Nat) : Machine Nat :=
  if a + b < UInt64.size then .ok (a + b) else fault .overflow

/-- The difference of two words. -/
def sub (a b : Nat) : Machine Nat := if b ≤ a then .ok (a - b) else fault .underflow

/-- The product of two words. -/
def mul (a b : Nat) : Machine Nat :=
  if a * b < UInt64.size then .ok (a * b) else fault .overflow

/-- A word shifted to the left, where bits above the word are lost. -/
def shiftLeft (a count : Nat) : Machine Nat :=
  if count < wordBits then .ok ((a <<< count) % UInt64.size) else fault .shift

/-- The padding of a word. -/
def pad (n : Nat) : Machine Nat :=
  match pad64? n with
  | some padded => .ok padded
  | none => fault .overflow

/-- The number of zeros in front of the first bit of a number that is set, of `width` bits. -/
def leadingZeros (width n : Nat) : Nat := (BitVec.ofNat width n).clz.toNat

/-- The number of zeros behind the last bit of a number that is set, of `width` bits. -/
def trailingZeros (width n : Nat) : Nat := (BitVec.ofNat width n).ctz.toNat

/-! ## Lists -/

/-- The entry of a list at a place. -/
def get {α : Type} (as : List α) (i : Nat) : Machine α :=
  match as[i]? with
  | some a => .ok a
  | none => fault .range

/-- The entries of a list from one place up to another. -/
def slice {α : Type} (as : List α) (start stop : Nat) : Machine (List α) :=
  if start ≤ stop ∧ stop ≤ as.length then .ok ((as.take stop).drop start) else fault .range

/-- A copy of a list into a buffer of the given length. -/
def copy {α : Type} (length : Nat) (as : List α) : Machine (List α) :=
  if as.length = length then .ok as else fault .lengths

end Machine

end ConfidentialPayment
