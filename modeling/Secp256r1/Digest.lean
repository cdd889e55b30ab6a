import Secp256r1.Curve
import Secp256r1.Error
import Secp256r1.Hex
import Secp256r1.Octets

/-!
# Message digests

`Digest` is a message digest of 32 octets, computed elsewhere.  Signing reads it as a
big-endian integer and never hashes it again.

* `Digest.decode` — accepts exactly 32 octets.
-/

set_option autoImplicit false

namespace Secp256r1

/-- A digest of 32 octets. -/
@[ext]
structure Digest where
  octets : Octets 32
deriving DecidableEq, Repr

namespace Digest

/-- Accepts exactly 32 octets. -/
def decode (bs : List UInt8) : Except Error Digest :=
  match Octets.ofList? 32 bs with
  | none => .error (.invalidLength "Digest::from_slice" Curve.digestSize bs.length)
  | some o => .ok ⟨o⟩

/-- A text with the octets in hexadecimal. -/
def debugText (d : Digest) : String := "Digest(" ++ Hex.encode d.octets.toList ++ ")"

end Digest

end Secp256r1
