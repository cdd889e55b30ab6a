import Secp256r1.Backend

/-!
# A scripted backend

A backend that answers its first calls from a script and computes the others, and keeps a
record of all calls.  It stands in for hardware whose answers are chosen by the user.

* `Script` — the answers that are left, and the calls so far.
* `Backend.scripted` — the backend.
-/

set_option autoImplicit false

namespace Secp256r1

/-- The operations of a backend. -/
inductive BackendCall where
  | mulBase
  | mul
  | mulAddBase
  | validatePoint
deriving DecidableEq, Repr

/-- The name of an operation. -/
def BackendCall.name : BackendCall → String
  | mulBase => "mul_base"
  | mul => "mul"
  | mulAddBase => "mul_add_base"
  | validatePoint => "validate_point"

/-- Answers that are left and calls that were made. -/
structure Script where
  mulBase : List Point
  mulAddBase : List Point
  /-- The answer to every validation, if there is one. -/
  reject : Option ArithmeticError
  /-- Calls in the order they were made. -/
  calls : List BackendCall

namespace Script

/-- The script after one more call. -/
def record (s : Script) (call : BackendCall) : Script := { s with calls := s.calls ++ [call] }

/-- Answers a call for a multiple of the base point. -/
def answerMulBase (k : Scalar) (s : Script) : Point × Script :=
  match s.mulBase with
  | p :: rest => (p, { s with mulBase := rest })
  | [] => (.mulBase k, s)

/-- Answers a call for a sum of two multiples. -/
def answerMulAddBase (u₁ u₂ : Scalar) (q : Point) (s : Script) : Point × Script :=
  match s.mulAddBase with
  | p :: rest => (p, { s with mulAddBase := rest })
  | [] => (.mulAddBase u₁ u₂ q, s)

/-- Answers a validation. -/
def answerValidate (p : Point) (s : Script) : Except ArithmeticError Unit :=
  match s.reject with
  | some e => .error e
  | none => p.validate

end Script

/-- The backend that follows a script. -/
def Backend.scripted : Backend Script where
  name := "scripted"
  debugText? := none
  mulBase k s := (s.record .mulBase).answerMulBase k
  mul k p s := (.mul k p, s.record .mul)
  mulAddBase u₁ u₂ q s := (s.record .mulAddBase).answerMulAddBase u₁ u₂ q
  validatePoint p s := (s.answerValidate p, s.record .validatePoint)

end Secp256r1
