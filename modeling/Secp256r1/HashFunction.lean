import Secp256r1.Octets

/-!
# Streaming hash functions

`HashFunction η` describes a hash function whose hasher states have type `η`: octets are
absorbed piece by piece, and reading the digest starts the hasher afresh.  A lawful hash function
never fails: whatever its hashers were given, they absorb more and hand out a digest.

* `HashFunction.digest` — the digest of one string.
-/

set_option autoImplicit false

namespace Secp256r1

/-- A hash function with hashers of type `η`.  Absorbing and reading the digest have a result for
every hasher: a lawful hash never fails, so that what is built on one has no errors but its own. -/
structure HashFunction (η : Type) where
  name : String
  /-- Octets of a digest. -/
  outputSize : Nat
  /-- Octets of an input block. -/
  blockSize : Nat
  /-- A hasher that has absorbed nothing. -/
  fresh : η
  /-- Absorbs octets. -/
  update : η → List UInt8 → η
  /-- The digest of what was absorbed, and the hasher to go on with. -/
  finalize : η → Octets outputSize × η
  /-- Overwrites the hasher with zeros. -/
  wipe : η → η
  /-- Another hasher that has absorbed the same. -/
  copy : η → η

namespace HashFunction

variable {η : Type}

/-- The digest of what a hasher absorbed and one more string. -/
def digestAfter (H : HashFunction η) (hasher : η) (data : List UInt8) : Octets H.outputSize :=
  (H.finalize (H.update hasher data)).1

/-- The digest of one string. -/
def digest (H : HashFunction η) (data : List UInt8) : Octets H.outputSize :=
  H.digestAfter H.fresh data

end HashFunction

end Secp256r1
