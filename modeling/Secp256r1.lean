import Secp256r1.Backend.Scripted
import Secp256r1.Main
import Secp256r1.Nonce.Listed
import Secp256r1.Proofs.Engine.Acceptance
import Secp256r1.Proofs.Engine.Search
import Secp256r1.Proofs.Engine.Signing
import Secp256r1.Proofs.Keys.Bijection
import Secp256r1.Proofs.Keys.Grammar
import Secp256r1.Proofs.Nonce.Derivation
import Secp256r1.Proofs.Point.Obtainable
import Secp256r1.Proofs.Sha256.Histories
import Secp256r1.Text.Diagnosis
import Secp256r1.Proofs.Engine.DigestResidue
import Secp256r1.Proofs.Keys.Lifecycle
import Secp256r1.Proofs.Engine.FreshNonces
import Secp256r1.Proofs.Keys.Validity
import Secp256r1.Proofs.Point.Canonical
import Secp256r1.Proofs.Field.Exactness
import Secp256r1.Proofs.Scalar.Exactness
import Secp256r1.Proofs.Point.ScalarAction
import Secp256r1.Proofs.Engine.Malformed
import Secp256r1.Proofs.Engine.Failures
import Secp256r1.Proofs.Field.Obtainable
import Secp256r1.Proofs.Nonce.Sampling
import Secp256r1.Proofs.Hmac.Histories
import Secp256r1.Proofs.Field.Inverse
import Secp256r1.Proofs.Point.AffineForm
import Secp256r1.Proofs.Scalar.Inverse
import Secp256r1.Proofs.Keys.Range
import Secp256r1.Proofs.Words.Exactness
import Secp256r1.Proofs.Comparison.Exactness
import Secp256r1.Proofs.Words.Places
