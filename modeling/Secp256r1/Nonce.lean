import Secp256r1.Digest
import Secp256r1.Entropy
import Secp256r1.Scalar

/-!
# Sources of nonces

A signature needs a nonce, a scalar in `[1, n-1]` that nobody can guess.  `NonceSource ν σ`
opens one stream of candidates for each signature: `ν` is the state of the source and `σ` that
of an open stream.

Some streams look for a candidate without a bound on how long that may take.  `next` therefore
gets a limit on the candidates it looks at, and answers `none` if that limit is too low; a
higher limit never changes an answer.
-/

set_option autoImplicit false

namespace Secp256r1

/-- A strategy for nonces. -/
structure NonceSource (ν σ : Type) where
  /-- A text that names the strategy, if it has one. -/
  debugText? : Option String
  /-- Opens a stream for a private scalar and a digest. -/
  start : Scalar → Digest → ν → Except Error σ × ν
  /-- The next candidate of a stream, found within a limit. -/
  next : Nat → σ → ν → Option (Except Error Scalar × σ × ν)

/-- A request to a generator, whose failure is one of entropy. -/
def Generator.draw {γ : Type} (gen : Generator γ) (context : String) (n : Nat) (g : γ) :
    Except Error (Octets n) × γ :=
  let (r, g) := gen.fill n g
  (r.mapError (.entropyUnavailable context), g)

end Secp256r1
