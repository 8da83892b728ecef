import ConfidentialPayment.Suite

/-!
# ConfidentialPayment.Pedersen

Commitments with five attributes.

A coin commitment binds the private key of the owner, the value, the serial number derivator, the
shard and the blinding, each to a generator of its own. `Generators` is any choice of the five
points, so that statements about commitments can be made for every choice; `Generators.standard`
is the public choice, five hashes of a fixed domain.
-/

namespace ConfidentialPayment

/-- What a commitment binds. -/
inductive Attribute
  | privateKey
  | value
  | derivator
  | shard
  | blinding
deriving DecidableEq, Repr

namespace Attribute

/-- All attributes in their order. -/
def all : List Attribute := [.privateKey, .value, .derivator, .shard, .blinding]

/-- The attribute at a place of the order. -/
def ofIndex? (index : Nat) : Option Attribute := all[index]?

end Attribute

/-- The values of the five attributes. -/
structure Opening where
  privateKey : Scalar
  value : Scalar
  derivator : Scalar
  shard : Scalar
  blinding : Scalar
deriving DecidableEq

/-- One generator for each attribute. -/
structure Generators (P : Type) where
  privateKey : P
  value : P
  derivator : P
  shard : P
  blinding : P

namespace Generators

variable {P : Type}

/-- The generator of an attribute. -/
def get (gens : Generators P) : Attribute → P
  | .privateKey => gens.privateKey
  | .value => gens.value
  | .derivator => gens.derivator
  | .shard => gens.shard
  | .blinding => gens.blinding

/-- The generators in the order of their attributes. -/
def toList (gens : Generators P) : List P := Attribute.all.map gens.get

/-- The generator at a place of the order. -/
def get? (gens : Generators P) (index : Nat) : Option P :=
  (Attribute.ofIndex? index).map gens.get

variable [Suite P]

/-- The domain that the public generators are hashed from. -/
def domain : Bytes := Bytes.ofText "payment_proofs_pedersen_generator"

/-- The public generators. -/
def standard (P : Type) [Suite P] : Generators P where
  privateKey := indexedPoint domain 0
  value := indexedPoint domain 1
  derivator := indexedPoint domain 2
  shard := indexedPoint domain 3
  blinding := indexedPoint domain 4

/-- The commitment to an opening. -/
def commit (gens : Generators P) (o : Opening) : P :=
  Suite.weightedSum
    [(o.privateKey, gens.privateKey), (o.value, gens.value), (o.derivator, gens.derivator),
     (o.shard, gens.shard), (o.blinding, gens.blinding)]

/-- The commitment to five scalars in the order of the attributes. -/
def commitList (gens : Generators P) : List Scalar → Except Error P
  | [privateKey, value, derivator, shard, blinding] =>
    .ok (gens.commit ⟨privateKey, value, derivator, shard, blinding⟩)
  | openings => .error (.lengthMismatch Attribute.all.length openings.length)

/-- The blinded commitment to one attribute. -/
def commitTo (gens : Generators P) (kind : Attribute) (value blinding : Scalar) : P :=
  combine value (gens.get kind) blinding gens.blinding

/-- The blinded commitment to the attribute at a place of the order, if there is one. -/
def commitAt? (gens : Generators P) (value blinding : Scalar) (index : Nat) : Option P :=
  (Attribute.ofIndex? index).map fun kind => gens.commitTo kind value blinding

/-- The unblinded commitment to a shard. Whoever knows the shard can compute it, so it cannot
hide a value. -/
def commitShard (gens : Generators P) (shard : Nat) : P := Scalar.ofNat shard • gens.shard

/-- The unblinded commitment to a published derivator. -/
def commitDerivator (gens : Generators P) (derivator : Scalar) : P := derivator • gens.derivator

end Generators

end ConfidentialPayment
