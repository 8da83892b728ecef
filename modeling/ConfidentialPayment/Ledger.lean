import ConfidentialPayment.Suite

/-!
# ConfidentialPayment.Ledger

The commitments of all coins ever created, in the order of their creation.

Payments look commitments up through a `Ledger.View`, which any store can offer: the commitment
with a number, and whether a commitment is there at all. A `Ledger` is the store that keeps them in
memory; a commitment that is appended twice is found under its first number.
-/

namespace ConfidentialPayment

/-- Commitments by number and by presence. -/
structure Ledger.View (P : Type) where
  commitmentAt : UInt64 → Option P
  contains : P → Bool

/-- Commitments in the order in which they were appended. -/
structure Ledger (P : Type) where
  commitments : Array P

namespace Ledger

variable {P : Type}

/-- The ledger without commitments. -/
def empty : Ledger P := ⟨#[]⟩

/-- The number of commitments. -/
def size (ledger : Ledger P) : Nat := ledger.commitments.size

/-- Whether there is no commitment. -/
def isEmpty (ledger : Ledger P) : Bool := ledger.commitments.isEmpty

/-- Appends a commitment; the result has the number that it gets. -/
def push (ledger : Ledger P) (commitment : P) : Nat × Ledger P :=
  (ledger.size, ⟨ledger.commitments.push commitment⟩)

/-- The ledger of a list of commitments. -/
def ofList (commitments : List P) : Ledger P := ⟨commitments.toArray⟩

/-- The commitment with a number. -/
def get? (ledger : Ledger P) (index : Nat) : Option P := ledger.commitments[index]?

/-- The first number of a commitment. -/
def indexOf? [DecidableEq P] (ledger : Ledger P) (commitment : P) : Option Nat :=
  ledger.commitments.toList.findIdx? (· = commitment)

/-- Whether a commitment was appended. -/
def contains [DecidableEq P] (ledger : Ledger P) (commitment : P) : Bool :=
  (ledger.indexOf? commitment).isSome

/-- What payments see of a ledger. -/
def view [DecidableEq P] (ledger : Ledger P) : View P where
  commitmentAt index := ledger.get? index.toNat
  contains := ledger.contains

end Ledger

end ConfidentialPayment
