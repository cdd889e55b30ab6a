import Secp256r1.Octets

/-!
# Sources of random octets

`Generator γ` hands out random octets from a state of type `γ`, or says in words why it cannot.

* `Generator.tape` — hands out a given string in order; a request for more than is left
  fails and takes nothing.
-/

set_option autoImplicit false

namespace Secp256r1

/-- What hands out random octets. -/
structure Generator (γ : Type) where
  fill : (n : Nat) → γ → Except String (Octets n) × γ

/-- The generator that reads a tape. -/
def Generator.tape : Generator (List UInt8) where
  fill n tape :=
    match Octets.ofList? n (tape.take n) with
    | none => (.error "tape exhausted", tape)
    | some o => (.ok o, tape.drop n)

end Secp256r1
