import Secp256r1.Nonce.Rfc6979

/-!
# Random and hedged nonces

Two strategies that use a generator of random octets.  A random nonce is 32 octets from the
generator, drawn again while they are out of range, with a bound on the number of draws.  A
hedged nonce is derived deterministically with 32 random octets as extra input.

* `Generator.candidate` — rejection sampling from a generator.
* `NonceSource.random`, `NonceSource.hedged` — the strategies.
-/

set_option autoImplicit false

namespace Secp256r1

/-- How many draws a random nonce may take; a healthy generator needs a second one with
probability below `2⁻³²`. -/
def maxRandomDraws : Nat := 64

namespace Generator

variable {γ : Type}

/-- The first of the next `draws` blocks of 32 octets that lies in `[1, n-1]`. -/
def candidate (gen : Generator γ) : Nat → γ → Except Error Scalar × γ
  | 0, g => (.error (.entropyUnavailable "RandomNonce::next_nonce"
      s!"no candidate in [1, n-1] after {maxRandomDraws} draws"), g)
  | draws + 1, g =>
    match gen.draw "RandomNonce::next_nonce" 32 g with
    | (.error e, g) => (.error e, g)
    | (.ok o, g) =>
      match Scalar.ofCanonical o with
      | .ok k => (.ok k, g)
      | .error _ => candidate gen draws g

end Generator

namespace NonceSource

variable {γ : Type}

/-- Nonces drawn uniformly by rejection sampling. -/
def random (gen : Generator γ) : NonceSource γ Unit where
  debugText? := some (Record.hiddenText "RandomNonce")
  start _ _ g := (.ok (), g)
  next _ _ g :=
    let (r, g) := gen.candidate maxRandomDraws g
    some (r, (), g)

/-- Nonces derived from key and digest with fresh random octets mixed in. -/
def hedged (gen : Generator γ) : NonceSource γ Rfc6979 where
  debugText? := some (Record.hiddenText "HedgedNonce")
  start x digest g :=
    match gen.draw "HedgedNonce::open" 32 g with
    | (.error e, g) => (.error e, g)
    | (.ok extra, g) => (Rfc6979.seed x digest extra.toList, g)
  next limit s g := (s.next limit).map fun (r, s) => (r, s, g)

end NonceSource

end Secp256r1
