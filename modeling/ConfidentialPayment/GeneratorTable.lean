import ConfidentialPayment.Hash.Sha2
import ConfidentialPayment.Suite

/-!
# ConfidentialPayment.GeneratorTable

The bases that range proofs commit vectors over: two lists of equal length and one base for inner
products. A table is any such choice; `ofCapacity` is the public one, whose points are hashes of a
fixed domain. The digest of a table goes into every range proof transcript, so proofs over
different tables have different challenges.
-/

namespace ConfidentialPayment

/-- Two lists of bases of equal length and the base of inner products. -/
structure GeneratorTable (P : Type) where
  g : List P
  h : List P
  u : P
  length_eq : h.length = g.length

namespace GeneratorTable

variable {P : Type}

/-- The length of the lists. -/
def capacity (table : GeneratorTable P) : Nat := table.g.length

/-- The first `n` bases of both lists, if there are as many. -/
def first? (table : GeneratorTable P) (n : Nat) : Option (List P × List P) :=
  if n ≤ table.capacity then some (table.g.take n, table.h.take n) else none

variable [Suite P]

/-- The digest of all bases. -/
def digest (table : GeneratorTable P) : Bytes :=
  Hash.Sha256.hash ((table.g ++ table.h ++ [table.u]).flatMap Suite.encode)

/-- The domain that the public tables are hashed from. -/
def domain : Bytes := Bytes.ofText "payment_proofs_bulletproof_generator"

/-- The number of the base of inner products, the last one of 64 bits. -/
def productIndex : Nat := UInt64.size - 1

/-- The public table of a capacity. Bases with even numbers make the first list and bases with odd
numbers the second, so a table begins with every smaller one. -/
def ofCapacity (P : Type) [Suite P] (capacity : Nat) : GeneratorTable P where
  g := (List.range capacity).map fun i => indexedPoint domain (2 * i)
  h := (List.range capacity).map fun i => indexedPoint domain (2 * i + 1)
  u := indexedPoint domain productIndex
  length_eq := by simp

end GeneratorTable

end ConfidentialPayment
