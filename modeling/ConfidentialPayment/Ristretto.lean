import ConfidentialPayment.Ristretto.Edwards.WeightedSum
import ConfidentialPayment.Ristretto.Encoding
import ConfidentialPayment.Suite
import ConfidentialPayment.Transcript.Strobe

/-!
# ConfidentialPayment.Ristretto

The group ristretto255 and the suite over it.

A point is the field element that names its class, kept together with the coordinates of the
representative that decoding gives. So two points are equal exactly when their names are, which is
equality in the group, and encoding a point is writing its name. Every operation works on
representatives and names the class of its result.

The main statements are `decode?_encode` and `encode_of_decode?`: the wire form of points is
canonical.
-/

namespace ConfidentialPayment.Ristretto

/-- A group element: its name and the representative that the name decodes to. -/
structure Point where
  name : BaseField
  x : BaseField
  y : BaseField
  decode_name : decode? name = some (x, y)

namespace Point

theorem ext {p q : Point} (h : p.name = q.name) : p = q := by
  obtain ⟨n, x, y, hp⟩ := p
  obtain ⟨m, u, v, hq⟩ := q
  subst h
  have hxy : (x, y) = (u, v) := Option.some.inj (hp.symm.trans hq)
  cases hxy
  rfl

instance : DecidableEq Point := fun p q =>
  decidable_of_iff (p.name = q.name) ⟨ext, fun h => h ▸ rfl⟩

/-- The neutral element, whose name is zero. -/
def zero : Point := ⟨0, 0, 1, rfl⟩

/-- The element that a name decodes to. -/
def ofName? (name : BaseField) : Option Point :=
  match h : Ristretto.decode? name with
  | some (x, y) => some ⟨name, x, y, h⟩
  | none => none

/-- A representative. -/
def toEdwards (p : Point) : Edwards := .ofAffine p.x p.y

/-- The class of a curve point. The name of a curve point always decodes. -/
def ofEdwards (e : Edwards) : Point := (ofName? e.code).getD zero

/-- The sum of points times scalars. -/
def weightedSum (terms : List (Scalar × Point)) : Point :=
  ofEdwards (Edwards.weightedSum (terms.map fun term => (term.1, term.2.toEdwards)))

/-- The element of 64 uniform bytes. -/
def ofUniform (bs : Bytes) : Point := ofEdwards (Edwards.ofUniform bs)

/-- The conventional base point. -/
def basepoint : Point :=
  (ofName? (.ofNat 0x762d8de04559a6b68ddd82a56a0be3585f5100c561a984a8714ebc6a0aaef2e2)).getD zero

/-! ## Encoding -/

/-- The name in 32 bytes, little endian. -/
def encode (p : Point) : Bytes := Bytes.ofNatLE pointLength p.name.val

/-- The element that a string names: 32 bytes below the characteristic that decode. -/
def decode? (bs : Bytes) : Option Point :=
  if bs.length = pointLength then
    if h : Bytes.toNatLE bs < BaseField.characteristic then ofName? ⟨Bytes.toNatLE bs, h⟩ else none
  else
    none

/-- A point is found by its name. -/
theorem ofName?_name (p : Point) : ofName? p.name = some p := by
  unfold ofName?
  split
  · exact congrArg some (ext rfl)
  · next h => exact absurd (h.symm.trans p.decode_name) (by simp)

/-- A point that is found has the name that was asked for. -/
theorem name_of_ofName? {name : BaseField} {p : Point} (h : ofName? name = some p) :
    p.name = name := by
  unfold ofName? at h
  split at h
  · cases h; rfl
  · cases h

@[simp] theorem length_encode (p : Point) : p.encode.length = pointLength :=
  Bytes.length_ofNatLE _ _

theorem characteristic_lt : BaseField.characteristic < 256 ^ pointLength := by decide

/-- An encoded point reads back. -/
theorem decode?_encode (p : Point) : decode? p.encode = some p := by
  have hval : Bytes.toNatLE p.encode = p.name.val :=
    Bytes.toNatLE_ofNatLE_of_lt (Nat.lt_trans p.name.val_lt characteristic_lt)
  rw [decode?, if_pos p.length_encode, dif_pos (by rw [hval]; exact p.name.val_lt)]
  simp only [hval]
  exact ofName?_name p

/-- What reads back is the encoding. -/
theorem encode_of_decode? {bs : Bytes} {p : Point} (h : decode? bs = some p) : p.encode = bs := by
  unfold decode? at h
  split at h
  · next hlen =>
    split at h
    · have hname := name_of_ofName? h
      rw [encode, hname, ← hlen]
      exact Bytes.ofNatLE_toNatLE bs
    · cases h
  · cases h

end Point

/-! ## The suite -/

instance : Zero Point := ⟨Point.zero⟩
instance : Add Point := ⟨fun p q => .ofEdwards (p.toEdwards.add q.toEdwards)⟩
instance : Neg Point := ⟨fun p => .ofEdwards p.toEdwards.neg⟩
instance : Sub Point := ⟨fun p q => .ofEdwards (p.toEdwards.add q.toEdwards.neg)⟩
instance : SMul Scalar Point := ⟨fun x p => .weightedSum [(x, p)]⟩
instance : Inhabited Point := ⟨0⟩

instance : Suite Point where
  decEq := inferInstance
  weightedSum := Point.weightedSum
  basepoint := Point.basepoint
  encode := Point.encode
  decode? := Point.decode?
  ofUniform := Point.ofUniform
  challenge := Transcript.challengeScalar

instance : LawfulEncoding Point where
  length_encode := Point.length_encode
  decode_encode := Point.decode?_encode
  encode_of_decode := Point.encode_of_decode?

end ConfidentialPayment.Ristretto
