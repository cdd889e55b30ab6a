import Secp256r1.Backend

/-!
# Public keys

`PublicKey` holds the point of a public key.  Every way in from octets checks the length, the
encoding, the curve equation and the order of the point.

* `PublicKey.decode`, `PublicKey.encode` — the 65-octet form `0x04 ∥ x ∥ y`.
* `PublicKey.ofRaw`, `PublicKey.toRaw` — the 64-octet form `x ∥ y`.
* `PublicKey.decodeWith` — the point is checked by a given backend.
-/

set_option autoImplicit false

namespace Secp256r1

/-- A public key by its point. -/
@[ext]
structure PublicKey where
  point : Point
deriving DecidableEq, Repr

namespace PublicKey

variable {β : Type}

/-- The key of a point that the backend does not refuse. -/
def ofPoint (backend : Backend β) (context : String) (p : Point) :
    StateM β (Except Error PublicKey) := do
  let verdict ← backend.validatePoint p
  return (relabel context verdict).map fun _ => ⟨p⟩

/-- Reads `0x04 ∥ x ∥ y` and has the backend check the point. -/
def decodeWith (backend : Backend β) (bs : List UInt8) : StateM β (Except Error PublicKey) :=
  let context := "EcdsaP256PublicKey::import"
  match (do
    checkKeyLength context bs.length Curve.publicKeySize
    relabel context (Point.decode bs)) with
  | .error e => pure (.error e)
  | .ok p => ofPoint backend context p

/-- Reads `0x04 ∥ x ∥ y`. -/
def decode (bs : List UInt8) : Except Error PublicKey := ((decodeWith .software bs).run ()).1

/-- Reads `x ∥ y`. -/
def ofRaw (bs : List UInt8) : Except Error PublicKey := do
  let context := "EcdsaP256PublicKey::from_raw_xy"
  match Octets.ofList? 64 bs with
  | none => throw (.invalidKeyLength context Curve.rawPublicKeySize bs.length)
  | some o =>
    let p ← relabel context (Point.ofRaw o)
    ((ofPoint .software context p).run ()).1

/-- Writes `0x04 ∥ x ∥ y`. -/
def encode (key : PublicKey) : Octets 65 := key.point.encode

/-- Writes `x ∥ y`. -/
def toRaw (key : PublicKey) : Octets 64 := key.point.toRaw

/-- Whether two keys have the same point. -/
def equal (a b : PublicKey) : Bool := a.point.equal b.point

/-- A text with the point. -/
def debugText (key : PublicKey) : String :=
  Record.text "EcdsaP256PublicKey" [("point", key.point.debugText)]

end PublicKey

end Secp256r1
