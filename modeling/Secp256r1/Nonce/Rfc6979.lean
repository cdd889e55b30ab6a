import Secp256r1.Hmac
import Secp256r1.Nonce
import Secp256r1.Text.Record

/-!
# Deterministic nonces

The nonce derivation of RFC 6979 with HMAC-SHA-256.  Its state is a pair `(K, V)`, seeded with
the private scalar, the digest modulo `n` and optional extra input; every further candidate
is the next `V`, and candidates outside `[1, n-1]` are passed over.  What changes a state answers
together with the state that it leaves, whether it fails or not.

* `Rfc6979.seed` — the state after the seeding steps.
* `Rfc6979.draw` — one candidate, in range or not.
* `Rfc6979.next` — the next candidate in range.
* `NonceSource.rfc6979` — the strategy without extra input.
-/

set_option autoImplicit false

namespace Secp256r1

/-- The state of a derivation. -/
@[ext]
structure Rfc6979 where
  k : SecretBuffer 32
  v : SecretBuffer 32
  /-- Whether a candidate has been drawn. -/
  drawn : Bool
deriving DecidableEq

namespace Rfc6979

/-- The tag of several strings under a key of 32 octets. -/
def hmac (key : SecretBuffer 32) (parts : List (List UInt8)) : Except Error (SecretBuffer 32) :=
  match Hmac.macParts sha256 key.octets.toList parts with
  | .error e => .error e.toError
  | .ok tag => .ok ⟨tag⟩

/-- Replaces `V` by its own tag. -/
def retag (s : Rfc6979) : Except Error Unit × Rfc6979 :=
  match hmac s.k [s.v.octets.toList] with
  | .error e => (.error e, s)
  | .ok v => (.ok (), { s with v })

/-- Replaces the key by the tag of `V` and more octets, then `V` by its own tag. -/
def rekey (s : Rfc6979) (parts : List (List UInt8)) : Except Error Unit × Rfc6979 :=
  match hmac s.k (s.v.octets.toList :: parts) with
  | .error e => (.error e, s)
  | .ok k => retag { s with k }

/-- The state before seeding. -/
def blank : Rfc6979 := ⟨.zeroed 32, ⟨.replicate 32 0x01⟩, false⟩

/-- Seeds a derivation with a private scalar, a digest and extra input. -/
def seed (x : Scalar) (digest : Digest) (extra : List UInt8) : Except Error Rfc6979 := do
  let material := [x.toOctets.toList, (Scalar.reduce digest.octets).toOctets.toList, extra]
  let (first, s) := blank.rekey ([0x00] :: material)
  first
  let (second, s) := s.rekey ([0x01] :: material)
  second
  return s

/-- Draws one candidate; after the first, the state is keyed anew before each. -/
def draw (s : Rfc6979) : Except Error Unit × Rfc6979 :=
  match if s.drawn then s.rekey [[0x00]] else (.ok (), s) with
  | (.error e, s) => (.error e, s)
  | (.ok (), s) =>
    match s.retag with
    | (.error e, s) => (.error e, s)
    | (.ok (), s) => (.ok (), { s with drawn := true })

/-- The next candidate in `[1, n-1]`, among the next `limit` ones. -/
def next : Nat → Rfc6979 → Option (Except Error Scalar × Rfc6979)
  | 0, _ => none
  | limit + 1, s =>
    match s.draw with
    | (.error e, s) => some (.error e, s)
    | (.ok (), s) =>
      match Scalar.ofCanonical s.v.octets with
      | .ok k => some (.ok k, s)
      | .error _ => next limit s

/-- The state overwritten with zeros. -/
def wipe (s : Rfc6979) : Rfc6979 := ⟨s.k.wipe, s.v.wipe, false⟩

/-- A text that tells nothing about the state. -/
def debugText (_ : Rfc6979) : String := Record.hiddenText "Rfc6979Stream"

end Rfc6979

/-- The strategy without randomness: the same key and digest give the same nonces. -/
def NonceSource.rfc6979 : NonceSource Unit Rfc6979 where
  debugText? := some "Rfc6979"
  start x digest _ := (Rfc6979.seed x digest [], ())
  next limit s _ := (s.next limit).map fun (r, s) => (r, s, ())

end Secp256r1
