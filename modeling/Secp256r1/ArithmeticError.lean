import Secp256r1.Error

/-!
# Errors of the arithmetic

`ArithmeticError` says why an operation on field elements, scalars, points, hashes or
message authentication codes failed.  `ArithmeticError.toError` turns it into an error of
the signature interface, and `relabel` does so under the caller's name.

* `ArithmeticError.message`, `ArithmeticError.kind` — its text and the name of the cause.
* `relabel` — a result whose error is converted and carries a new context.
* `checkArithmeticLength`, `checkOnCurve`, `checkScalarRange` — checks that stop with the
  matching cause.
-/

set_option autoImplicit false

namespace Secp256r1

/-- Why an arithmetic operation failed. -/
inductive ArithmeticError where
  /-- A parameter that is not allowed. -/
  | parameter (name reason : String)
  /-- A string of the wrong length. -/
  | length (context : String) (expected actual : Nat)
  /-- A scalar that is zero or not below the group order. -/
  | scalarRange (context : String)
  /-- An encoding that stands for no finite point of the curve. -/
  | pointNotOnCurve (context : String)
  /-- A point of the curve that the group order does not annihilate. -/
  | invalidSubgroup (context : String)
  /-- An operand that breaks a precondition, such as zero where an inverse is taken. -/
  | invalidOperand (operation details : String)
deriving DecidableEq, Repr

namespace ArithmeticError

/-- The name of the cause. -/
def kind : ArithmeticError → String
  | parameter .. => "Parameter"
  | length .. => "Length"
  | scalarRange .. => "ScalarRange"
  | pointNotOnCurve .. => "PointNotOnCurve"
  | invalidSubgroup .. => "InvalidSubgroup"
  | invalidOperand .. => "InvalidOperand"

/-- The text shown to people. -/
def message : ArithmeticError → String
  | parameter name reason => s!"Invalid parameter '{name}': {reason}"
  | length c expected actual => s!"Invalid length for {c}: expected {expected}, got {actual}"
  | scalarRange c => s!"Scalar out of range in {c}"
  | pointNotOnCurve c => s!"Point not on curve in {c}"
  | invalidSubgroup c => s!"Point outside the prime-order subgroup in {c}"
  | invalidOperand operation details => s!"Invalid operand in {operation}: {details}"

/-- The error of the signature interface that stands for it. -/
def toError : ArithmeticError → Error
  | parameter name reason => .invalidOperand name reason
  | length c expected actual => .invalidLength c expected actual
  | scalarRange c => .invalidScalarRange c
  | pointNotOnCurve c => .pointNotOnCurve c
  | invalidSubgroup c => .invalidSubgroup c
  | invalidOperand operation details => .invalidOperand operation details

end ArithmeticError

/-- Hands an arithmetic failure on as an error of the interface, reported by `context`. -/
def relabel {α : Type} (context : String) (r : Except ArithmeticError α) : Except Error α :=
  r.mapError fun e => e.toError.withContext context

/-- Stops unless a string has the expected length. -/
def checkArithmeticLength (context : String) (actual expected : Nat) :
    Except ArithmeticError Unit :=
  if actual = expected then .ok () else .error (.length context expected actual)

/-- Stops unless a point satisfies the curve equation. -/
def checkOnCurve (condition : Bool) (context : String) : Except ArithmeticError Unit :=
  if condition then .ok () else .error (.pointNotOnCurve context)

/-- Stops unless a scalar lies in `[1, n-1]`. -/
def checkScalarRange (condition : Bool) (context : String) : Except ArithmeticError Unit :=
  if condition then .ok () else .error (.scalarRange context)

end Secp256r1
