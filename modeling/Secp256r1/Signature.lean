import Secp256r1.Curve
import Secp256r1.Error
import Secp256r1.Text.Record

/-!
# Signatures

`Signature` is a pair `(r, s)` of 32-octet big-endian integers, written as `r ∥ s`.  Decoding
looks at the length only; whether the components lie in `[1, n-1]` is for verification to
say.

* `Signature.encode`, `Signature.decode` — the two directions (`decode_encode`).
-/

set_option autoImplicit false

namespace Secp256r1

/-- A signature by its components. -/
@[ext]
structure Signature where
  r : Octets 32
  s : Octets 32
deriving DecidableEq, Repr

namespace Signature

/-- Writes `r ∥ s`. -/
def encode (g : Signature) : Octets 64 := g.r.append g.s

/-- Reads `r ∥ s`. -/
def decode (bs : List UInt8) : Except Error Signature :=
  match Octets.ofList? 64 bs with
  | none =>
    .error (.malformedSignature "ECDSA signature decoding" "signature must be exactly 64 bytes")
  | some o =>
    let (r, s) := Octets.split (m := 32) (n := 32) o
    .ok ⟨r, s⟩

theorem decode_encode (g : Signature) : decode g.encode.toList = .ok g := by
  rw [decode, Octets.ofList?_toList]
  simp only [encode, Octets.split_append]

/-- A text with both components. -/
def debugText (g : Signature) : String :=
  Record.text "SignatureComponents" [("r", Record.listText (g.r.toList.map UInt8.toNat)),
    ("s", Record.listText (g.s.toList.map UInt8.toNat))]

end Signature

end Secp256r1
