import Secp256r1.ArithmeticError
import Secp256r1.Curve
import Secp256r1.Field.Reduction
import Secp256r1.Text.Record
import Secp256r1.Words.Codec

/-!
# The field of integers modulo p

`FieldElement` is an integer modulo the field prime as eight words.  Every operation
returns the representative in `[0, p)` of a result formed by branch-free word chains.

* `FieldElement.ofOctets`, `FieldElement.toOctets` — 32 big-endian octets; values at or
  above `p` are refused, never reduced.
* `+`, `-`, `*`, `FieldElement.double`, `FieldElement.triple`, `FieldElement.square`.
* `FieldElement.invert` — fails at zero; `FieldElement.invertTotal` maps zero to zero.
* `FieldElement.equal`, `FieldElement.isZero`, `FieldElement.select` — comparison and
  choice by a look at every word.
-/

set_option autoImplicit false

namespace Secp256r1

/-- An integer modulo `p`, least significant word first. -/
@[ext]
structure FieldElement where
  limbs : Words 8
deriving DecidableEq, Repr

namespace FieldElement

/-- The integer held. -/
def value (a : FieldElement) : Nat := a.limbs.value

/-- A small integer as a field element. -/
def ofUInt32 (n : UInt32) : FieldElement := ⟨⟨[n, 0, 0, 0, 0, 0, 0, 0], rfl⟩⟩

/-- The additive identity. -/
def zero : FieldElement := ofUInt32 0

/-- The multiplicative identity. -/
def one : FieldElement := ofUInt32 1

/-- A constant below `p` given as octets. -/
def ofConstant (o : Octets 32) : FieldElement := ⟨.ofNat 8 o.value⟩

/-- The coefficient `b` of the curve. -/
def curveB : FieldElement := ofConstant Curve.secp256r1.b

/-- Reads 32 big-endian octets; a value at or above `p` is an error. -/
def ofOctets (o : Octets 32) : Except ArithmeticError FieldElement :=
  let limbs := Words.ofOctets o
  let (_, borrow) := limbs.sub Reduction.modulus
  if borrow == 0 then .error (.parameter "FieldElement P-256" "Value ≥ modulus")
  else .ok ⟨limbs⟩

/-- Writes 32 big-endian octets. -/
def toOctets (a : FieldElement) : Octets 32 := a.limbs.toOctets

/-- Whether the element is zero. -/
def isZero (a : FieldElement) : Bool := a.limbs.isZero

/-- Whether two elements have the same words. -/
def equal (a b : FieldElement) : Bool := a.limbs.equal b.limbs

/-- The first element, or the second if `choice` holds. -/
def select (a b : FieldElement) (choice : Bool) : FieldElement :=
  ⟨.select (if choice then 1 else 0) a.limbs b.limbs⟩

/-- The sum: `p` is subtracted if the words overflowed or reached it. -/
def add (a b : FieldElement) : FieldElement :=
  let (sum, carry) := a.limbs.add b.limbs
  let (lowered, borrow) := sum.sub Reduction.modulus
  ⟨.select ((carry ||| (borrow ^^^ 1)) &&& 1) sum lowered⟩

/-- The difference: `p` is added back if the words went below zero. -/
def sub (a b : FieldElement) : FieldElement :=
  let (diff, borrow) := a.limbs.sub b.limbs
  let (raised, _) := diff.add Reduction.modulus
  ⟨.select borrow diff raised⟩

/-- The product. -/
def mul (a b : FieldElement) : FieldElement := ⟨Reduction.reduce (Reduction.product a.limbs b.limbs)⟩

instance : Add FieldElement := ⟨add⟩
instance : Sub FieldElement := ⟨sub⟩
instance : Mul FieldElement := ⟨mul⟩

/-- Twice the element. -/
def double (a : FieldElement) : FieldElement := a + a

/-- Three times the element. -/
def triple (a : FieldElement) : FieldElement := a.double + a

/-- The additive inverse. -/
def negate (a : FieldElement) : FieldElement := zero - a

/-- The square. -/
def square (a : FieldElement) : FieldElement := a * a

/-- The element raised to a power given by its binary digits, most significant first. -/
def power (a : FieldElement) (digits : List Bool) : FieldElement :=
  digits.foldl (fun r bit => if bit then r.square * a else r.square) one

/-- The exponent `p − 2` of inversion. -/
def inversionExponent : Octets 32 :=
  ⟨[0xFF, 0xFF, 0xFF, 0xFF, 0x00, 0x00, 0x00, 0x01, 0x00, 0x00, 0x00, 0x00, 0x00, 0x00, 0x00,
    0x00, 0x00, 0x00, 0x00, 0x00, 0xFF, 0xFF, 0xFF, 0xFF, 0xFF, 0xFF, 0xFF, 0xFF, 0xFF, 0xFF,
    0xFF, 0xFD], rfl⟩

/-- The multiplicative inverse, as the power `p − 2`; zero goes to zero. -/
def invertTotal (a : FieldElement) : FieldElement := a.power inversionExponent.bits

/-- The multiplicative inverse; zero is an error. -/
def invert (a : FieldElement) : Except ArithmeticError FieldElement :=
  if a.isZero then .error (.invalidOperand "FieldElement::invert" "zero has no inverse")
  else .ok a.invertTotal

/-- The element after it is overwritten with zeros. -/
def wipe (_ : FieldElement) : FieldElement := ⟨.zero 8⟩

/-- A text with the words, least significant first, in decimal. -/
def debugText (a : FieldElement) : String :=
  "FieldElement(" ++ Record.listText (a.limbs.toList.map UInt32.toNat) ++ ")"

end FieldElement

end Secp256r1
