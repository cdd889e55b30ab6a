import Secp256r1.Nonce

/-!
# Listed nonces

A source that hands out given numbers modulo `n`, one list for all its streams, whatever the
key and the digest.  Zero is handed out too, so that the engine can be seen to cope with it.
-/

set_option autoImplicit false

namespace Secp256r1

/-- Nonces from a list, in order. -/
def NonceSource.listed : NonceSource (List (Octets 32)) Unit where
  debugText? := none
  start _ _ list := (.ok (), list)
  next _ _ list :=
    match list with
    | [] => some (.error (.entropyUnavailable "ListNonce::next_nonce" "list exhausted"), (), [])
    | o :: rest => some (.ok (.reduce o), (), rest)

end Secp256r1
