import ConfidentialPayment.Ristretto.Edwards
import ConfidentialPayment.Scalar

/-!
# ConfidentialPayment.Ristretto.Edwards.WeightedSum

Sums of many points times scalars.

Scalars are written in a base `2 ^ width` with digits of either sign. The sum is built from the
most significant digits down: it is multiplied by the base and the current digit of every term is
added, where terms are few from a table of small multiples of each point, and where they are many
by collecting the points with equal digits in buckets.
-/

namespace ConfidentialPayment.Ristretto.Edwards

/-! ## Digits -/

/-- The digits of a number in base `2 ^ width`, least significant first, between `-2 ^ (width - 1)`
and `2 ^ (width - 1)`. -/
def signedDigits (width : Nat) : (count : Nat) → Nat → List Int
  | 0, _ => []
  | count + 1, n =>
    let digit := n % 2 ^ width
    let rest := n >>> width
    if digit > 2 ^ (width - 1) then
      ((digit : Int) - 2 ^ width) :: signedDigits width count (rest + 1)
    else
      (digit : Int) :: signedDigits width count rest

/-- How many digits write all of the given numbers. -/
def digitCount (width : Nat) (numbers : List Nat) : Nat :=
  ((numbers.foldl max 0).log2 + 1) / width + 1

/-- Adds a prepared point times the sign of a digit that is not zero. -/
@[inline] def addSigned (p : Edwards) (digit : Int) (q : Prepared) : Edwards :=
  p.addPrepared (if digit < 0 then q.neg else q)

/-! ## Columns -/

/-- The sum of columns of digits: multiplies by the base before each column is added. -/
def sumColumns (width : Nat) (addColumn : Nat → Edwards → Edwards) :
    (count : Nat) → Edwards → Edwards
  | 0, sum => sum
  | i + 1, sum => sumColumns width addColumn i (addColumn i (sum.timesTwoPower width))

/-- A term: the digits of its scalar, and what additions of its point use. -/
structure Term (α : Type) where
  digits : Array Int
  operand : α

/-! ## Few terms -/

/-- The multiples `p, 2 p, …, count p`, prepared. -/
def multiples (p : Edwards) (count : Nat) : Array Prepared :=
  let step := p.prepare
  ((List.range count).foldl
    (fun (acc : Array Prepared × Edwards) _ =>
      let next := acc.2.addPrepared step
      (acc.1.push next.prepare, next))
    (#[], zero)).1

/-- Adds the digits of weight `i`, each from the table of its point. -/
def addFromTables (terms : List (Term (Array Prepared))) (i : Nat) (start : Edwards) : Edwards :=
  terms.foldl
    (fun sum term =>
      let digit := term.digits.getD i 0
      if digit = 0 then sum else
        match term.operand[digit.natAbs - 1]? with
        | some multiple => sum.addSigned digit multiple
        | none => sum)
    start

/-- The sum of few terms. -/
def sumByTables (width : Nat) (terms : List (Nat × Edwards)) : Edwards :=
  let count := digitCount width (terms.map Prod.fst)
  let prepared := terms.map fun (n, p) =>
    ⟨(signedDigits width count n).toArray, multiples p (2 ^ (width - 1))⟩
  sumColumns width (addFromTables prepared) count zero

/-! ## Many terms -/

/-- The points with each digit of weight `i` added up, negative ones with their sign. -/
def fillBuckets (width : Nat) (terms : List (Term Prepared)) (i : Nat) : Array Edwards :=
  terms.foldl
    (fun buckets term =>
      let digit := term.digits.getD i 0
      if digit = 0 then buckets
      else buckets.modify (digit.natAbs - 1) fun bucket => bucket.addSigned digit term.operand)
    (Array.replicate (2 ^ (width - 1)) zero)

/-- Every bucket times its number, counted from one: the sum of all sums of final buckets. -/
def sumBuckets (buckets : Array Edwards) : Edwards :=
  (buckets.foldr
    (fun bucket (running, total) =>
      let running := running.add bucket
      (running, total.add running))
    (zero, zero)).2

/-- The sum of many terms. -/
def sumByBuckets (width : Nat) (terms : List (Nat × Edwards)) : Edwards :=
  let count := digitCount width (terms.map Prod.fst)
  let prepared := terms.map fun (n, p) => ⟨(signedDigits width count n).toArray, p.prepare⟩
  sumColumns width (fun i sum => sum.add (sumBuckets (fillBuckets width prepared i))) count zero

/-! ## All sums -/

/-- From this number of terms on buckets take fewer additions than tables. -/
def manyTerms : Nat := 96

/-- The sum of the points times their scalars. -/
def weightedSum (terms : List (Scalar × Edwards)) : Edwards :=
  let numbers := terms.map fun (x, p) => (x.val, p)
  let size := terms.length
  if size < manyTerms then sumByTables 4 numbers else sumByBuckets (size.log2 - 2) numbers

end ConfidentialPayment.Ristretto.Edwards
