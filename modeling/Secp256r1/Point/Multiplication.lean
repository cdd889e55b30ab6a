import Secp256r1.Point.Projective
import Secp256r1.Scalar

/-!
# Multiples of points

Multiplication by a 256-bit integer in windows of four bits: each hexadecimal digit doubles
the sum four times and adds one of sixteen precomputed multiples.

* `ProjectivePoint.multiples` — the table `0·P, 1·P, …`.
* `ProjectivePoint.mulOctets`, `Point.mulOctets` — by any 32-octet integer, reduced or not.
* `Point.mul`, `Point.mulBase`, `Point.mulAddBase` — by scalars.
* `Point.validate` — the full check of a public point.
-/

set_option autoImplicit false

namespace Secp256r1

namespace ProjectivePoint

/-- `count` multiples in steps of `p`, from `q` up. -/
def multiples (p : ProjectivePoint) : Nat → ProjectivePoint → List ProjectivePoint
  | 0, _ => []
  | count + 1, q => q :: multiples p count (q.add p)

/-- The entry at `index`, picked in one pass over the whole table; beyond it, the identity. -/
def lookUp (table : List ProjectivePoint) (index : UInt8) : ProjectivePoint :=
  table.zipIdx.foldl (fun out (entry, i) => out.select entry (UInt8.ofNat i == index)) identity

/-- Sixteen times the sum plus the multiple for one hexadecimal digit. -/
def windowStep (table : List ProjectivePoint) (sum : ProjectivePoint) (digit : UInt8) :
    ProjectivePoint :=
  sum.double.double.double.double.add (lookUp table digit)

/-- The multiple by a 256-bit integer. -/
def mulOctets (p : ProjectivePoint) (k : Octets 32) : ProjectivePoint :=
  k.nibbles.foldl (windowStep (multiples p 16 identity)) identity

end ProjectivePoint

namespace Point

/-- The multiple by a 256-bit integer, which need not be below the group order. -/
def mulOctets (p : Point) (k : Octets 32) : Point := (p.toProjective.mulOctets k).toAffine

/-- The multiple by a scalar. -/
def mul (k : Scalar) (p : Point) : Point := p.mulOctets k.toOctets

/-- The multiple of the base point. -/
def mulBase (k : Scalar) : Point := mul k generator

/-- `u₁·G + u₂·Q`, with one conversion to affine coordinates. -/
def mulAddBase (u₁ u₂ : Scalar) (q : Point) : Point :=
  ((generator.toProjective.mulOctets u₁.toOctets).add
    (q.toProjective.mulOctets u₂.toOctets)).toAffine

/-- Whether the group order annihilates the point. -/
def isInPrimeSubgroup (p : Point) : Bool := (p.mulOctets Curve.secp256r1.n).isIdentity

/-- Refuses the identity, coordinates off the curve, and points outside the subgroup of
prime order. -/
def validate (p : Point) : Except ArithmeticError Unit := do
  if p.isIdentity then
    throw (.pointNotOnCurve "P-256 public point is the identity")
  let _ ← ofCoordinates p.x.toOctets p.y.toOctets
  if !p.isInPrimeSubgroup then
    throw (.invalidSubgroup "P-256 public point")

end Point

end Secp256r1
