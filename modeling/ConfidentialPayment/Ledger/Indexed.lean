import Std.Data.HashMap.Basic
import ConfidentialPayment.Ledger

/-!
# ConfidentialPayment.Ledger.Indexed

A ledger that finds commitments by their encodings.

Beside the commitments in order it keeps the number under which every encoding was appended first,
so that no lookup searches. It answers as a `Ledger` of the same commitments does, as long as
different points have different encodings.
-/

namespace ConfidentialPayment

/-- Commitments in order, and the first number of each of their encodings. -/
structure Ledger.Indexed (P : Type) where
  commitments : Array P
  firstNumbers : Std.HashMap Bytes Nat

namespace Ledger.Indexed

variable {P : Type}

/-- The ledger without commitments. -/
def empty : Indexed P := ⟨#[], ∅⟩

/-- The number of commitments. -/
def size (ledger : Indexed P) : Nat := ledger.commitments.size

/-- Whether there is no commitment. -/
def isEmpty (ledger : Indexed P) : Bool := ledger.commitments.isEmpty

/-- The commitment with a number. -/
def get? (ledger : Indexed P) (index : Nat) : Option P := ledger.commitments[index]?

variable [Suite P]

/-- Appends a commitment; the result has the number that it gets. A commitment that is there
already keeps its first number. -/
def push (ledger : Indexed P) (commitment : P) : Nat × Indexed P :=
  (ledger.size, {
    commitments := ledger.commitments.push commitment
    firstNumbers := ledger.firstNumbers.insertIfNew (Suite.encode commitment) ledger.size })

/-- Appends commitments one after the other. -/
def append (ledger : Indexed P) (commitments : List P) : Indexed P :=
  commitments.foldl (fun ledger commitment => (ledger.push commitment).2) ledger

/-- The ledger of a list of commitments. -/
def ofList (commitments : List P) : Indexed P := empty.append commitments

/-- The first number of a commitment. -/
def indexOf? (ledger : Indexed P) (commitment : P) : Option Nat :=
  ledger.firstNumbers[Suite.encode commitment]?

/-- Whether a commitment was appended. -/
def contains (ledger : Indexed P) (commitment : P) : Bool :=
  ledger.firstNumbers.contains (Suite.encode commitment)

/-- What payments see of a ledger. -/
def view (ledger : Indexed P) : View P where
  commitmentAt index := ledger.get? index.toNat
  contains := ledger.contains

end Ledger.Indexed

end ConfidentialPayment
