import Secp256r1.Octets

/-!
# The curve secp256r1

The constants of the curve `y² = x³ + ax + b` over the integers modulo `p`, as 32 big-endian
octets each, and the widths of what is encoded.

* `Curve.secp256r1` — field prime, coefficients, base point, group order and cofactor.
* `Curve.signatureSize` and its neighbours — widths in octets.
-/

set_option autoImplicit false

namespace Secp256r1

/-- The constants of a curve `y² = x³ + ax + b` over a prime field of 256 bits. -/
structure Curve where
  /-- Field prime. -/
  p : Octets 32
  a : Octets 32
  b : Octets 32
  /-- Coordinates of the base point. -/
  gx : Octets 32
  gy : Octets 32
  /-- Order of the base point. -/
  n : Octets 32
  cofactor : Nat
deriving DecidableEq, Repr

namespace Curve

/-- The constants of secp256r1. -/
def secp256r1 : Curve where
  p := ⟨[0xFF, 0xFF, 0xFF, 0xFF, 0x00, 0x00, 0x00, 0x01, 0x00, 0x00, 0x00, 0x00, 0x00, 0x00,
    0x00, 0x00, 0x00, 0x00, 0x00, 0x00, 0xFF, 0xFF, 0xFF, 0xFF, 0xFF, 0xFF, 0xFF, 0xFF, 0xFF,
    0xFF, 0xFF, 0xFF], rfl⟩
  a := ⟨[0xFF, 0xFF, 0xFF, 0xFF, 0x00, 0x00, 0x00, 0x01, 0x00, 0x00, 0x00, 0x00, 0x00, 0x00,
    0x00, 0x00, 0x00, 0x00, 0x00, 0x00, 0xFF, 0xFF, 0xFF, 0xFF, 0xFF, 0xFF, 0xFF, 0xFF, 0xFF,
    0xFF, 0xFF, 0xFC], rfl⟩
  b := ⟨[0x5A, 0xC6, 0x35, 0xD8, 0xAA, 0x3A, 0x93, 0xE7, 0xB3, 0xEB, 0xBD, 0x55, 0x76, 0x98,
    0x86, 0xBC, 0x65, 0x1D, 0x06, 0xB0, 0xCC, 0x53, 0xB0, 0xF6, 0x3B, 0xCE, 0x3C, 0x3E, 0x27,
    0xD2, 0x60, 0x4B], rfl⟩
  gx := ⟨[0x6B, 0x17, 0xD1, 0xF2, 0xE1, 0x2C, 0x42, 0x47, 0xF8, 0xBC, 0xE6, 0xE5, 0x63, 0xA4,
    0x40, 0xF2, 0x77, 0x03, 0x7D, 0x81, 0x2D, 0xEB, 0x33, 0xA0, 0xF4, 0xA1, 0x39, 0x45, 0xD8,
    0x98, 0xC2, 0x96], rfl⟩
  gy := ⟨[0x4F, 0xE3, 0x42, 0xE2, 0xFE, 0x1A, 0x7F, 0x9B, 0x8E, 0xE7, 0xEB, 0x4A, 0x7C, 0x0F,
    0x9E, 0x16, 0x2B, 0xCE, 0x33, 0x57, 0x6B, 0x31, 0x5E, 0xCE, 0xCB, 0xB6, 0x40, 0x68, 0x37,
    0xBF, 0x51, 0xF5], rfl⟩
  n := ⟨[0xFF, 0xFF, 0xFF, 0xFF, 0x00, 0x00, 0x00, 0x00, 0xFF, 0xFF, 0xFF, 0xFF, 0xFF, 0xFF,
    0xFF, 0xFF, 0xBC, 0xE6, 0xFA, 0xAD, 0xA7, 0x17, 0x9E, 0x84, 0xF3, 0xB9, 0xCA, 0xC2, 0xFC,
    0x63, 0x25, 0x51], rfl⟩
  cofactor := 1

/-- Octets of an encoded signature. -/
def signatureSize : Nat := 64

/-- Octets of one signature component. -/
def componentSize : Nat := 32

/-- Octets of an encoded secret key. -/
def secretKeySize : Nat := 32

/-- Octets of an encoded public key: a tag and two coordinates. -/
def publicKeySize : Nat := 65

/-- Octets of a public key without its tag. -/
def rawPublicKeySize : Nat := 64

/-- Octets of a digest. -/
def digestSize : Nat := 32

end Curve

end Secp256r1
