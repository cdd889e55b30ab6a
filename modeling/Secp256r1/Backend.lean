import Secp256r1.Point.Multiplication

/-!
# Curve backends

`Backend β` supplies the multiplications of points that keys and engines need; `β` is the state
of whatever computes them.  A backend may answer with any points: nothing in the library
takes its answers on trust beyond what the caller asked of it.

* `Backend.software` — computes with the definitions of this library and has no state.
-/

set_option autoImplicit false

namespace Secp256r1

/-- What computes multiples of points, with a state of type `β`. -/
structure Backend (β : Type) where
  name : String
  /-- A text that names the backend, if it has one. -/
  debugText? : Option String
  /-- `k·G`. -/
  mulBase : Scalar → StateM β Point
  /-- `k·P`. -/
  mul : Scalar → Point → StateM β Point
  /-- `u₁·G + u₂·Q`. -/
  mulAddBase : Scalar → Scalar → Point → StateM β Point
  /-- Refuses a point that is no public key. -/
  validatePoint : Point → StateM β (Except ArithmeticError Unit)

/-- The backend without state that computes with this library. -/
def Backend.software : Backend Unit where
  name := "software"
  debugText? := some "SoftwareBackend"
  mulBase k := pure (.mulBase k)
  mul k p := pure (.mul k p)
  mulAddBase u₁ u₂ q := pure (.mulAddBase u₁ u₂ q)
  validatePoint p := pure p.validate

end Secp256r1
