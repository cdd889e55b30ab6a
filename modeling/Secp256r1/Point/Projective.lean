import Secp256r1.Point

/-!
# Projective points

`ProjectivePoint` is a triple `(X:Y:Z)` that stands for the affine point `(X/Z, Y/Z)`, or for
the identity if `Z = 0`.  One addition formula, complete on this curve, serves distinct,
equal, opposite and identity operands alike.

* `Point.toProjective`, `ProjectivePoint.toAffine` — the two directions.
* `ProjectivePoint.add` — the complete formula for the coefficient `a = −3`.
* `Point.add`, `Point.double` — the group law on affine points through it.
-/

set_option autoImplicit false

namespace Secp256r1

/-- Homogeneous coordinates of a point. -/
@[ext]
structure ProjectivePoint where
  x : FieldElement
  y : FieldElement
  z : FieldElement
deriving DecidableEq, Repr

namespace ProjectivePoint

/-- The identity `(0:1:0)`. -/
def identity : ProjectivePoint := ⟨.zero, .one, .zero⟩

/-- The first triple, or the second if `choice` holds. -/
def select (p q : ProjectivePoint) (choice : Bool) : ProjectivePoint :=
  ⟨p.x.select q.x choice, p.y.select q.y choice, p.z.select q.z choice⟩

/-- The sum, by one formula for all operands. -/
def add (p q : ProjectivePoint) : ProjectivePoint :=
  let b := FieldElement.curveB
  let xx := p.x * q.x
  let yy := p.y * q.y
  let zz := p.z * q.z
  -- the mixed terms `X₁Y₂ + X₂Y₁`, `Y₁Z₂ + Y₂Z₁` and `X₁Z₂ + X₂Z₁`
  let c := (p.x + p.y) * (q.x + q.y) - xx - yy
  let d := (p.y + p.z) * (q.y + q.z) - yy - zz
  let e := (p.x + p.z) * (q.x + q.z) - xx - zz
  let f := (e - b * zz).triple
  let g := yy - f
  let h := yy + f
  let i := zz.triple
  let j := (b * e - xx - i).triple
  let k := xx.triple - i
  ⟨h * c - d * j, h * g + k * j, g * d + k * c⟩

/-- Twice the point. -/
def double (p : ProjectivePoint) : ProjectivePoint := p.add p

/-- The affine point; the identity gets zero coordinates. -/
def toAffine (p : ProjectivePoint) : Point :=
  let atInfinity := p.z.isZero
  let zInverse := p.z.invertTotal
  ⟨atInfinity, (p.x * zInverse).select .zero atInfinity, (p.y * zInverse).select .zero atInfinity⟩

end ProjectivePoint

namespace Point

/-- A triple with `Z = 1`, or `(0:1:0)` for the identity. -/
def toProjective (p : Point) : ProjectivePoint :=
  ProjectivePoint.select ⟨p.x, p.y, .one⟩ .identity p.isIdentity

/-- The sum in the curve group. -/
def add (p q : Point) : Point := (p.toProjective.add q.toProjective).toAffine

/-- Twice the point. -/
def double (p : Point) : Point := p.toProjective.double.toAffine

end Point

end Secp256r1
