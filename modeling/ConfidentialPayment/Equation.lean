import ConfidentialPayment.Suite

/-!
# ConfidentialPayment.Equation

The equations that verifiers check.

A proof system lists its equations between points as functions of the challenge, each with the
number of the statement that it belongs to. A verifier checks them in order and reports the first
one that fails; a batch verifier checks one random combination of their residuals. Both are said
to agree because they speak of the same list.
-/

namespace ConfidentialPayment

/-- Two points that should be equal, under the number of a statement. -/
structure Equation (P : Type) where
  statement : Nat
  left : P
  right : P

namespace Equation

variable {P : Type} [Suite P]

/-- Whether both sides are equal. -/
def Holds (e : Equation P) : Prop := e.left = e.right

instance (e : Equation P) : Decidable e.Holds := inferInstanceAs (Decidable (e.left = e.right))

/-- The difference of the two sides. -/
def residual (e : Equation P) : P := e.left - e.right

/-- Checks equations in order; the first that fails is reported. -/
def checkAll (kind : ProofKind) : List (Equation P) → Except Error Unit
  | [] => .ok ()
  | e :: es => if e.Holds then checkAll kind es else .error (.rejected kind e.statement)

/-- A check passes exactly if all equations hold. -/
theorem checkAll_eq_ok_iff {kind : ProofKind} {es : List (Equation P)} :
    checkAll kind es = .ok () ↔ ∀ e ∈ es, e.Holds := by
  induction es with
  | nil => simp [checkAll]
  | cons e es ih =>
    by_cases h : e.Holds
    · simp [checkAll, h, ih]
    · simp [checkAll, h]

end Equation

end ConfidentialPayment
