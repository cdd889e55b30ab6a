import Secp256r1.Field

/-!
# Affine points

`Point` is a point of the curve in affine coordinates, or the identity, which is flagged
and has zero coordinates.

* `Point.ofCoordinates` — accepts exactly reduced coordinates on the curve.
* `Point.encode`, `Point.decode` — the 65-octet form `0x04 ∥ x ∥ y`; the identity is
  written as zeros and has no encoding that is read back.
* `Point.toRaw`, `Point.ofRaw` — the 64-octet form `x ∥ y`.
* `Point.equal` — two identities, or finite points with equal coordinates.
-/

set_option autoImplicit false

namespace Secp256r1

/-- A point in affine coordinates, or the identity. -/
@[ext]
structure Point where
  isIdentity : Bool
  x : FieldElement
  y : FieldElement
deriving DecidableEq, Repr

namespace Point

/-- The point at infinity. -/
def identity : Point := ⟨true, .zero, .zero⟩

/-- The base point. -/
def generator : Point :=
  ⟨false, .ofConstant Curve.secp256r1.gx, .ofConstant Curve.secp256r1.gy⟩

/-- Whether coordinates satisfy `y² = x³ − 3x + b`. -/
def isOnCurve (x y : FieldElement) : Bool :=
  y.square.equal (x.square * x - x.triple + .curveB)

/-- The point with given coordinates, which must be reduced and on the curve. -/
def ofCoordinates (x y : Octets 32) : Except ArithmeticError Point := do
  let notReduced := fun (_ : ArithmeticError) =>
    ArithmeticError.pointNotOnCurve "P-256 Point coordinates"
  let x ← (FieldElement.ofOctets x).mapError notReduced
  let y ← (FieldElement.ofOctets y).mapError notReduced
  checkOnCurve (isOnCurve x y) "P-256 Point"
  return ⟨false, x, y⟩

/-- Reads `x ∥ y`. -/
def ofRaw (o : Octets 64) : Except ArithmeticError Point :=
  let (x, y) := Octets.split (m := 32) (n := 32) o
  ofCoordinates x y

/-- Writes `x ∥ y`. -/
def toRaw (p : Point) : Octets 64 := p.x.toOctets.append p.y.toOctets

/-- Writes `0x04 ∥ x ∥ y`, or zeros for the identity. -/
def encode (p : Point) : Octets 65 :=
  if p.isIdentity then .zero 65 else (Octets.replicate 1 0x04).append p.toRaw

/-- Reads `0x04 ∥ x ∥ y`. -/
def decode (bs : List UInt8) : Except ArithmeticError Point :=
  match Octets.ofList? 65 bs with
  | none => .error (.length "P-256 Point" 65 bs.length)
  | some o =>
    let (tag, raw) := Octets.split (m := 1) (n := 64) o
    if tag.toList = [0x04] then ofRaw raw
    else .error (.pointNotOnCurve "P-256 Point tag")

/-- Whether two points are the same. -/
def equal (p q : Point) : Bool :=
  (p.isIdentity && q.isIdentity) ||
    ((!p.isIdentity && !q.isIdentity) && (p.x.equal q.x && p.y.equal q.y))

/-- The mirror point `(x, −y)`. -/
def negate (p : Point) : Point := { p with y := p.y.negate }

/-- A text with the flag and the coordinates. -/
def debugText (p : Point) : String :=
  Record.text "Point" [("is_identity", if p.isIdentity then "Choice(1)" else "Choice(0)"),
    ("x", p.x.debugText), ("y", p.y.debugText)]

end Point

end Secp256r1
