import ConfidentialPayment.Digest
import ConfidentialPayment.Pedersen
import ConfidentialPayment.RandomSource

/-!
# ConfidentialPayment.Signature

Schnorr signatures under committed keys.

A verification key is a commitment to the private key, `secret • G + blinding • H`, so the key
commitment of a payment is itself the key that its signature is checked with. A signature is a
challenge and one response for each part of the key; a key without blinding needs no second
response, and its signatures are 64 bytes long instead of 96.
-/

namespace ConfidentialPayment

/-- A private key: the secret and the blinding of its commitment. -/
structure SigningKey where
  secret : Scalar
  blinding : Scalar
deriving DecidableEq

/-- A signature. -/
structure Signature where
  challenge : Scalar
  response : Scalar
  blindingResponse : Option Scalar
deriving DecidableEq

variable {P : Type} [Suite P]

/-- The verification key of a private key. -/
def SigningKey.publicKey (gens : Generators P) (key : SigningKey) : P :=
  key.secret • gens.privateKey + key.blinding • gens.blinding

namespace Signature

/-- The random scalars behind one signature: the nonce of the secret and, for a blinded key, that
of the blinding. -/
structure Nonces where
  secret : Scalar
  blinding : Option Scalar

/-- The challenge of a commitment to the nonces and a message. -/
def challengeOf (nonceCommitment : P) (message : Digest) : Scalar :=
  hashToScalar (Suite.encode nonceCommitment ++ message.bytes)

/-- Draws the nonces for a key. -/
def drawNonces (key : SigningKey) : Draw Nonces := do
  let secret ← RandomSource.scalar
  if key.blinding = 0 then return ⟨secret, none⟩
  return ⟨secret, some (← RandomSource.scalar)⟩

/-- The signature of a message with given nonces. -/
def signWith (gens : Generators P) (key : SigningKey) (message : Digest) (nonces : Nonces) :
    Signature :=
  match nonces.blinding with
  | none =>
    let e := challengeOf (nonces.secret • gens.privateKey) message
    ⟨e, nonces.secret - key.secret * e, none⟩
  | some blinding =>
    let e := challengeOf (combine nonces.secret gens.privateKey blinding gens.blinding) message
    ⟨e, nonces.secret - key.secret * e, some (blinding - key.blinding * e)⟩

/-- Signs a message. -/
def sign (gens : Generators P) (key : SigningKey) (message : Digest) : Draw Signature :=
  signWith gens key message <$> drawNonces key

/-- The commitment to the nonces that a signature claims under a verification key. -/
def claimedCommitment (gens : Generators P) (publicKey : P) (s : Signature) : P :=
  match s.blindingResponse with
  | none => Suite.weightedSum [(s.challenge, publicKey), (s.response, gens.privateKey)]
  | some z =>
    Suite.weightedSum
      [(s.challenge, publicKey), (s.response, gens.privateKey), (z, gens.blinding)]

/-- Checks a signature of a message under a verification key. -/
def verify (gens : Generators P) (publicKey : P) (s : Signature) (message : Digest) :
    Except Error Unit :=
  if challengeOf (s.claimedCommitment gens publicKey) message = s.challenge then .ok ()
  else .error (.rejected .signature 1)

/-! ## Encoding -/

/-- Challenge, response and, if there is one, the response for the blinding. -/
def toBytes (s : Signature) : Bytes :=
  s.challenge.toBytes ++ s.response.toBytes ++ (s.blindingResponse.map Scalar.toBytes).getD []

/-- The scalar of a string, a failure attributed to a field. -/
def component (field : String) (bs : Bytes) : Except Error Scalar :=
  (Scalar.ofBytes bs).mapError (.malformed field)

/-- Reads a signature of either length. Of several malformed parts the response for the blinding
is reported first. -/
def ofBytes (bs : Bytes) : Except Error Signature := do
  let n := Scalar.byteLength
  let blindingResponse ←
    if bs.length = 2 * n then pure none
    else if bs.length = 3 * n then some <$> component "z2" (bs.drop (2 * n))
    else .error (.lengthMismatch (3 * n) bs.length)
  let challenge ← component "e" (bs.take n)
  let response ← component "z1" ((bs.drop n).take n)
  return ⟨challenge, response, blindingResponse⟩

end Signature

end ConfidentialPayment
