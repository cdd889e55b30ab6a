import Secp256r1.ArithmeticError
import Secp256r1.Curve
import Secp256r1.Scalar.Montgomery
import Secp256r1.SecretBuffer
import Secp256r1.Words.Codec

/-!
# Scalars: the integers modulo the group order

`Scalar` is an integer modulo the group order `n`, kept as 32 secret big-endian octets.
Private keys, nonces, digests as numbers and signature components are scalars.

* `Scalar.ofCanonical`, `Scalar.decode` — accept exactly `[1, n-1]` and reduce nothing.
* `Scalar.reduce` — any 256-bit integer modulo `n`: one subtraction suffices, as
  `2²⁵⁶ < 2n`.
* `+`, `-`, `*`, `Scalar.negate`, `Scalar.inverse` — arithmetic modulo `n`; only the
  inverse can fail, at zero.
-/

set_option autoImplicit false

namespace Secp256r1

/-- An integer modulo the group order. -/
@[ext]
structure Scalar where
  secret : SecretBuffer 32
deriving DecidableEq

namespace Scalar

/-- The octets, most significant first. -/
def toOctets (k : Scalar) : Octets 32 := k.secret.octets

/-- The integer held. -/
def value (k : Scalar) : Nat := k.toOctets.value

/-- The words, least significant first. -/
def limbs (k : Scalar) : Words 8 := .ofOctets k.toOctets

/-- The scalar of eight words. -/
def ofLimbs (w : Words 8) : Scalar := ⟨⟨w.toOctets⟩⟩

/-- Zero. -/
def zero : Scalar := ⟨.zeroed 32⟩

/-- One. -/
def one : Scalar := ⟨⟨(Octets.zero 31).append (.replicate 1 1)⟩⟩

/-- Accepts exactly the integers in `[1, n-1]`. -/
def ofCanonical (o : Octets 32) : Except ArithmeticError Scalar := do
  let inRange := ConstantTime.lessThan o Curve.secp256r1.n && !ConstantTime.isZero o.toList
  checkScalarRange inRange "P-256 Scalar"
  return ⟨⟨o⟩⟩

/-- Accepts exactly 32 octets of an integer in `[1, n-1]`. -/
def decode (bs : List UInt8) : Except ArithmeticError Scalar :=
  match Octets.ofList? 32 bs with
  | none => .error (.length "P-256 Scalar" 32 bs.length)
  | some o => ofCanonical o

/-- A 256-bit integer modulo the group order. -/
def reduce (o : Octets 32) : Scalar :=
  let limbs := Words.ofOctets o
  let (lowered, borrow) := limbs.sub Montgomery.order
  ofLimbs (.select (borrow ^^^ 1) limbs lowered)

/-- Whether the scalar is zero. -/
def isZero (k : Scalar) : Bool := k.secret.isZero

/-- Whether two scalars have the same octets. -/
def equal (a b : Scalar) : Bool := a.secret.equal b.secret

/-- The sum: `n` is subtracted if the words overflowed or reached it. -/
def add (a b : Scalar) : Scalar :=
  let (sum, carry) := a.limbs.add b.limbs
  let (lowered, borrow) := sum.sub Montgomery.order
  ofLimbs (.select ((carry ||| (borrow ^^^ 1)) &&& 1) sum lowered)

/-- The difference: `n` is added back if the words went below zero. -/
def sub (a b : Scalar) : Scalar :=
  let (diff, borrow) := a.limbs.sub b.limbs
  let (raised, _) := diff.add Montgomery.order
  ofLimbs (.select borrow diff raised)

/-- The product: the factor `R⁻¹` of one Montgomery product is undone by a second one with
`R²`. -/
def mul (a b : Scalar) : Scalar :=
  ofLimbs (Montgomery.product (Montgomery.product a.limbs b.limbs) Montgomery.radixSquared)

instance : Add Scalar := ⟨add⟩
instance : Sub Scalar := ⟨sub⟩
instance : Mul Scalar := ⟨mul⟩

/-- The additive inverse. -/
def negate (k : Scalar) : Scalar := zero - k

/-- The exponent `n − 2` of inversion. -/
def inversionExponent : Octets 32 :=
  ⟨[0xFF, 0xFF, 0xFF, 0xFF, 0x00, 0x00, 0x00, 0x00, 0xFF, 0xFF, 0xFF, 0xFF, 0xFF, 0xFF, 0xFF,
    0xFF, 0xBC, 0xE6, 0xFA, 0xAD, 0xA7, 0x17, 0x9E, 0x84, 0xF3, 0xB9, 0xCA, 0xC2, 0xFC, 0x63,
    0x25, 0x4F], rfl⟩

/-- The power `n − 2`, taken in the Montgomery domain. -/
def inverseTotal (k : Scalar) : Scalar :=
  let base := Montgomery.product k.limbs Montgomery.radixSquared
  let raised := Montgomery.power base inversionExponent.bits
  ofLimbs (Montgomery.product raised ⟨[1, 0, 0, 0, 0, 0, 0, 0], rfl⟩)

/-- The multiplicative inverse; zero is an error. -/
def inverse (k : Scalar) : Except ArithmeticError Scalar :=
  if k.isZero then .error (.invalidOperand "Scalar::inv_mod_n" "zero has no inverse")
  else .ok k.inverseTotal

/-- The scalar after it is overwritten with zeros. -/
def wipe (k : Scalar) : Scalar := ⟨k.secret.wipe⟩

/-- A text that tells nothing about the value. -/
def debugText (k : Scalar) : String := "Scalar(" ++ k.secret.debugText ++ ")"

end Scalar

end Secp256r1
