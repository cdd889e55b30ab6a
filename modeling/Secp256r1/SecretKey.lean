import Secp256r1.PublicKey

/-!
# Secret keys

`SecretKey` holds a scalar in `[1, n-1]` until it is disposed; from then on the scalar is zero
and every operation fails.

* `SecretKey.decode` — accepts exactly 32 octets of an integer in `[1, n-1]`.
* `SecretKey.scalar` — the live scalar; every other operation goes through it.
* `SecretKey.encode`, `SecretKey.publicKey`, `SecretKey.publicKeyWith`, `SecretKey.dispose`.
* `SecretKey.wipe` — what overwrites other secrets with zeros disposes of a key.
-/

set_option autoImplicit false

namespace Secp256r1

/-- A secret key, live or disposed. -/
@[ext]
structure SecretKey where
  d : Scalar
  isDisposed : Bool
deriving DecidableEq

namespace SecretKey

variable {β : Type}

/-- Accepts exactly 32 octets of an integer in `[1, n-1]`. -/
def decode (bs : List UInt8) : Except Error SecretKey :=
  let context := "EcdsaP256SecretKey::import"
  match Octets.ofList? 32 bs with
  | none => .error (.invalidKeyLength context Curve.secretKeySize bs.length)
  | some o => (relabel context (Scalar.ofCanonical o)).map fun d => ⟨d, false⟩

/-- The scalar of a live key. -/
def scalar (key : SecretKey) (context : String) : Except Error Scalar := do
  checkLive key.isDisposed context
  return key.d

/-- Derives the public key `d·G` on a given backend. -/
def publicKeyWith (backend : Backend β) (key : SecretKey) : StateM β (Except Error PublicKey) :=
  match key.scalar "EcdsaP256SecretKey::public_key" with
  | .error e => pure (.error e)
  | .ok d => do return .ok ⟨← backend.mulBase d⟩

/-- Derives the public key `d·G`. -/
def publicKey (key : SecretKey) : Except Error PublicKey := ((key.publicKeyWith .software).run ()).1

/-- The 32 octets of a live key. -/
def encode (key : SecretKey) : Except Error (Octets 32) := do
  return (← key.scalar "EcdsaP256SecretKey::export").toOctets

/-- The key after its scalar is overwritten with zeros. -/
def dispose (key : SecretKey) : SecretKey := ⟨key.d.wipe, true⟩

/-- The key overwritten as any secret is; that is to dispose of it. -/
def wipe (key : SecretKey) : SecretKey := key.dispose

/-- A text that tells only whether the key is disposed. -/
def debugText (key : SecretKey) : String :=
  Record.text "EcdsaP256SecretKey" [("d", "\"[REDACTED]\""),
    ("disposed", Record.boolText key.isDisposed)]

end SecretKey

end Secp256r1
