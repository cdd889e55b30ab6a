import Secp256r1.Backend
import Secp256r1.Nonce
import Secp256r1.SecretKey
import Secp256r1.Signature

/-!
# The signature engine

`Engine` signs and verifies 32-octet digests.  It owns a nonce strategy and a curve backend
with their states; signing advances both and verifying the backend only.

* `Engine.sign`, `Engine.signWithNonceCount` — search for a nonce with `r ≠ 0` and `s ≠ 0`.
  The search gets a limit on the candidates it looks at and answers `none` if that is too low.
* `Engine.verify` — accepts `(r, s)` if `u₁·G + u₂·Q` has an `x` that is `r` modulo `n`.
* `Engine.decodePublicKey`, `Engine.publicKey` — keys on the engine's backend.
* `Engine.signDigest`, `Engine.derivePublicKey`, `Engine.serializeSecretKey`, `Engine.disposeKey` —
  the same by the names that every signature scheme has.
-/

set_option autoImplicit false

namespace Secp256r1

/-- A nonce strategy and a curve backend, with their states. -/
structure Engine (ν σ β : Type) where
  source : NonceSource ν σ
  backend : Backend β
  nonces : ν
  device : β

namespace Engine

variable {ν σ β α : Type}

/-- The name of the algorithm. -/
def algorithmName : String := "ECDSA-P256"

/-- Runs an operation of the backend. -/
def onDevice (e : Engine ν σ β) (op : StateM β α) : α × Engine ν σ β :=
  let (a, device) := op.run e.device
  (a, { e with device })

/-- Reads a public key and has the engine's backend check it. -/
def decodePublicKey (e : Engine ν σ β) (bs : List UInt8) : Except Error PublicKey × Engine ν σ β :=
  e.onDevice (PublicKey.decodeWith e.backend bs)

/-- Derives the public key of a secret key on the engine's backend. -/
def publicKey (e : Engine ν σ β) (key : SecretKey) : Except Error PublicKey × Engine ν σ β :=
  e.onDevice (key.publicKeyWith e.backend)

/-- The name under which signing reports errors. -/
def signContext : String := "EcdsaP256::sign"

/-- `s = k⁻¹(z + r·d)`, which fails if the nonce is zero. -/
def secondComponent (k z r d : Scalar) : Except Error Scalar := do
  let inverse ← relabel signContext k.inverse
  return inverse * (z + r * d)

/-- Looks through candidates for one with `r ≠ 0` and `s ≠ 0`.  `drawn` counts the
candidates seen, `limit` bounds the search of one candidate, and the first argument the
candidates still to be looked at. -/
def search (limit : Nat) (z d : Scalar) :
    Nat → Nat → σ → Engine ν σ β → Option (Except Error (Signature × Nat) × Engine ν σ β)
  | 0, _, _, _ => none
  | candidates + 1, drawn, stream, e =>
    match e.source.next limit stream e.nonces with
    | none => none
    | some (.error err, _, nonces) => some (.error err, { e with nonces })
    | some (.ok k, stream, nonces) =>
      let (bigR, e) := onDevice { e with nonces } (e.backend.mulBase k)
      let r := Scalar.reduce bigR.x.toOctets
      if r.isZero then search limit z d candidates (drawn + 1) stream e
      else
        match secondComponent k z r d with
        | .error err => some (.error err, e)
        | .ok s =>
          if s.isZero then search limit z d candidates (drawn + 1) stream e
          else some (.ok (⟨r.toOctets, s.toOctets⟩, drawn + 1), e)

/-- Signs a digest, and tells how many candidates were drawn. -/
def signWithNonceCount (limit : Nat) (e : Engine ν σ β) (digest : Digest) (key : SecretKey) :
    Option (Except Error (Signature × Nat) × Engine ν σ β) :=
  match key.scalar signContext with
  | .error err => some (.error err, e)
  | .ok d =>
    match e.source.start d digest e.nonces with
    | (.error err, nonces) => some (.error err, { e with nonces })
    | (.ok stream, nonces) =>
      search limit (.reduce digest.octets) d limit 0 stream { e with nonces }

/-- Signs a digest. -/
def sign (limit : Nat) (e : Engine ν σ β) (digest : Digest) (key : SecretKey) :
    Option (Except Error Signature × Engine ν σ β) :=
  (e.signWithNonceCount limit digest key).map fun (r, e) => (r.map Prod.fst, e)

/-- A component in `[1, n-1]`; anything else makes the signature malformed. -/
def component (o : Octets 32) (reason : String) : Except Error Scalar :=
  (Scalar.ofCanonical o).mapError fun _ => .malformedSignature "EcdsaP256::verify" reason

/-- The components of a signature and the inverse of the second. -/
def readSignature (g : Signature) : Except Error (Scalar × Scalar) := do
  let r ← component g.r "r is zero or not below the group order"
  let s ← component g.s "s is zero or not below the group order"
  let w ← relabel "EcdsaP256::verify" s.inverse
  return (r, w)

/-- Whether a finite point has an `x` that is `r` modulo `n`. -/
def accepts (p : Point) (r : Octets 32) : Bool :=
  !p.isIdentity &&
    ConstantTime.equal (Scalar.reduce p.x.toOctets).toOctets.toList r.toList

/-- Verifies a signature over a digest.  A well-formed signature that does not match is
refused, not an error. -/
def verify (e : Engine ν σ β) (digest : Digest) (key : PublicKey) (g : Signature) :
    Except Error Bool × Engine ν σ β :=
  match readSignature g with
  | .error err => (.error err, e)
  | .ok (r, w) =>
    let z := Scalar.reduce digest.octets
    let (p, e) := e.onDevice (e.backend.mulAddBase (z * w) (r * w) key.point)
    (.ok (accepts p g.r), e)

/-- A text with the strategy and the backend, if both have one. -/
def debugText? (e : Engine ν σ β) : Option String := do
  let nonce ← e.source.debugText?
  let backend ← e.backend.debugText?
  return Record.text "EcdsaP256" [("nonce", nonce), ("backend", backend)]

/-! ## The names that every scheme has -/

/-- Signs a digest. -/
def signDigest (limit : Nat) (e : Engine ν σ β) (digest : Digest) (key : SecretKey) :
    Option (Except Error Signature × Engine ν σ β) :=
  e.sign limit digest key

/-- Derives the public key of a secret key, on no engine's backend. -/
def derivePublicKey (key : SecretKey) : Except Error PublicKey := key.publicKey

/-- The octets of a live secret key as a string. -/
def serializeSecretKey (key : SecretKey) : Except Error (List UInt8) :=
  key.encode.map Octets.toList

/-- Disposes of a secret key. -/
def disposeKey (key : SecretKey) : SecretKey := key.dispose

end Engine

end Secp256r1
