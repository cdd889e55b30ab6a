import Secp256r1.ConstantTime

/-!
# Secret buffers

`SecretBuffer n` holds `n` octets that must not show in any text.  Comparison and selection
look at every octet.

* `SecretBuffer.zeroed`, `SecretBuffer.wipe` — all octets zero.
* `SecretBuffer.select` — one of two buffers, octet by octet.
* `SecretBuffer.debugText` — tells the width and nothing else.
-/

set_option autoImplicit false

namespace Secp256r1

/-- Picks `a` at flag 0 and `b` at flag 1 through an all-zero or all-one mask. -/
def selectOctet (flag a b : UInt8) : UInt8 := a ^^^ ((0 - flag) &&& (a ^^^ b))

/-- Exactly `n` octets that are kept secret. -/
@[ext]
structure SecretBuffer (n : Nat) where
  octets : Octets n
deriving DecidableEq

namespace SecretBuffer

variable {n : Nat}

/-- The buffer of zero octets. -/
def zeroed (n : Nat) : SecretBuffer n := ⟨Octets.zero n⟩

/-- The number of octets. -/
def size (_ : SecretBuffer n) : Nat := n

/-- Whether the buffer holds no octet at all. -/
def isEmpty (b : SecretBuffer n) : Bool := b.size == 0

/-- Whether every octet is zero. -/
def isZero (b : SecretBuffer n) : Bool := ConstantTime.isZero b.octets.toList

/-- Whether two buffers hold the same octets. -/
def equal (a b : SecretBuffer n) : Bool := ConstantTime.equal a.octets.toList b.octets.toList

/-- The first buffer, or the second if `choice` holds. -/
def select (a b : SecretBuffer n) (choice : Bool) : SecretBuffer n :=
  ⟨⟨List.zipWith (selectOctet choice.toUInt8) a.octets.toList b.octets.toList, by
    simp [a.octets.length_toList, b.octets.length_toList]⟩⟩

/-- The buffer with one octet replaced; a place beyond the end changes nothing. -/
def modify (b : SecretBuffer n) (i : Nat) (f : UInt8 → UInt8) : SecretBuffer n :=
  ⟨⟨b.octets.toList.modify i f, by simp [b.octets.length_toList]⟩⟩

/-- The buffer after its secret is overwritten with zeros. -/
def wipe (_ : SecretBuffer n) : SecretBuffer n := zeroed n

/-- A text that tells the width only. -/
def debugText (_ : SecretBuffer n) : String := s!"SecretBuffer<{n}>([REDACTED])"

end SecretBuffer

end Secp256r1
