import ConfidentialPayment.Bytes
import ConfidentialPayment.Bytes.Hex
import ConfidentialPayment.Cipher.Aes256
import ConfidentialPayment.Coin
import ConfidentialPayment.Coin.Encoding
import ConfidentialPayment.Coin.Output
import ConfidentialPayment.Coin.Update
import ConfidentialPayment.Digest
import ConfidentialPayment.Encryption.Elgamal
import ConfidentialPayment.Encryption.Hybrid
import ConfidentialPayment.Encryption.Symmetric
import ConfidentialPayment.Envelope
import ConfidentialPayment.Equation
import ConfidentialPayment.Error
import ConfidentialPayment.GeneratorTable
import ConfidentialPayment.Hash.Keccak
import ConfidentialPayment.Hash.Sha2
import ConfidentialPayment.InnerProduct
import ConfidentialPayment.InnerProduct.Recursive
import ConfidentialPayment.Ledger
import ConfidentialPayment.Ledger.Indexed
import ConfidentialPayment.Machine
import ConfidentialPayment.Machine.Decoding
import ConfidentialPayment.Machine.InnerProduct
import ConfidentialPayment.Machine.Payment
import ConfidentialPayment.Machine.Polynomial
import ConfidentialPayment.Machine.Powers
import ConfidentialPayment.Machine.RangeProof
import ConfidentialPayment.Machine.Reader
import ConfidentialPayment.Membership
import ConfidentialPayment.Membership.Batch
import ConfidentialPayment.Membership.Witness
import ConfidentialPayment.Payment.Encoding
import ConfidentialPayment.Payment.Proof
import ConfidentialPayment.Payment.Request
import ConfidentialPayment.Payment.Verification
import ConfidentialPayment.Payment.Witness
import ConfidentialPayment.Pedersen
import ConfidentialPayment.Polynomial
import ConfidentialPayment.PowerOfTwo
import ConfidentialPayment.RandomSource
import ConfidentialPayment.RangeProof
import ConfidentialPayment.RangeProof.Batch
import ConfidentialPayment.RangeProof.Encoding
import ConfidentialPayment.RangeProof.Witness
import ConfidentialPayment.Ristretto
import ConfidentialPayment.Ristretto.BaseField
import ConfidentialPayment.Ristretto.Edwards
import ConfidentialPayment.Ristretto.Edwards.WeightedSum
import ConfidentialPayment.Ristretto.Encoding
import ConfidentialPayment.Scalar
import ConfidentialPayment.Scalar.Vector
import ConfidentialPayment.SerialNumber.Hidden
import ConfidentialPayment.SerialNumber.Revealed
import ConfidentialPayment.Signature
import ConfidentialPayment.Suite
import ConfidentialPayment.Text.CharClass
import ConfidentialPayment.Text.Quoted
import ConfidentialPayment.Text.Unreadable
import ConfidentialPayment.Transcript
import ConfidentialPayment.Transcript.Strobe
import ConfidentialPayment.Wallet
import ConfidentialPayment.Wire
import ConfidentialPayment.Proofs.Scalar.Field
import ConfidentialPayment.Proofs.Scalar.Vector
import ConfidentialPayment.Proofs.Pedersen
import ConfidentialPayment.Proofs.Suite.Ideal
import ConfidentialPayment.Proofs.Runs
import ConfidentialPayment.Proofs.Polynomial
import ConfidentialPayment.Proofs.InnerProduct.Completeness
import ConfidentialPayment.Proofs.InnerProduct.Recursive
import ConfidentialPayment.Proofs.InnerProduct.Soundness
import ConfidentialPayment.Proofs.InnerProduct.Weights
import ConfidentialPayment.Proofs.Membership.Completeness
import ConfidentialPayment.Proofs.Membership.Batch
import ConfidentialPayment.Proofs.Membership.Hiding
import ConfidentialPayment.Proofs.Membership.Soundness
import ConfidentialPayment.Proofs.RangeProof.Completeness
import ConfidentialPayment.Proofs.RangeProof.Batch
import ConfidentialPayment.Proofs.RangeProof.Binding
import ConfidentialPayment.Proofs.RangeProof.Capacity
import ConfidentialPayment.Proofs.RangeProof.Hiding
import ConfidentialPayment.Proofs.RangeProof.Soundness
import ConfidentialPayment.Proofs.Amount
import ConfidentialPayment.Proofs.Coin.Decryption
import ConfidentialPayment.Proofs.Coin.Reachable
import ConfidentialPayment.Proofs.Coin.Update
import ConfidentialPayment.Proofs.Digest
import ConfidentialPayment.Proofs.Envelope
import ConfidentialPayment.Proofs.Ledger
import ConfidentialPayment.Proofs.Ledger.History
import ConfidentialPayment.Proofs.Machine.Arithmetic
import ConfidentialPayment.Proofs.Machine.Decoding
import ConfidentialPayment.Proofs.Machine.InnerProduct
import ConfidentialPayment.Proofs.Machine.Payment
import ConfidentialPayment.Proofs.Machine.Polynomial
import ConfidentialPayment.Proofs.Machine.Powers
import ConfidentialPayment.Proofs.Machine.RangeProof
import ConfidentialPayment.Proofs.Machine.Reader
import ConfidentialPayment.Proofs.Payment.Balance
import ConfidentialPayment.Proofs.Payment.Completeness
import ConfidentialPayment.Proofs.Payment.Conservation
import ConfidentialPayment.Proofs.Payment.Determinacy
import ConfidentialPayment.Proofs.Payment.Growth
import ConfidentialPayment.Proofs.Payment.Recovery
import ConfidentialPayment.Proofs.Payment.Respending
import ConfidentialPayment.Proofs.Payment.Revaluation
import ConfidentialPayment.Proofs.Payment.RoundTrip
import ConfidentialPayment.Proofs.Payment.Signing
import ConfidentialPayment.Proofs.Payment.Spelling
import ConfidentialPayment.Proofs.Payment.Transparent
import ConfidentialPayment.Proofs.SerialNumber.Hiding
import ConfidentialPayment.Proofs.SerialNumber.Soundness
import ConfidentialPayment.Proofs.Transcript.FirstMove
import ConfidentialPayment.Proofs.Wallet
import ConfidentialPayment.Proofs.Wire.Exactness
import ConfidentialPayment.Proofs.Wire.SelfDelimiting
import ConfidentialPayment.Proofs.Wire.Totality
