/-!
# Errors of the signature interface

`Error` says why an operation on digests, keys, signatures or engines failed.  Each cause
names in its context the operation that reported it.

* `Error.message` — the text shown to people; `Error.kind` — the name of the cause.
* `Error.withContext` — the same cause reported by another operation
  (`context_withContext`, `kind_withContext`).
* `Error.isMalformedInput` — whether the caller's octets are to blame.
* `checkLength`, `checkKeyLength`, `checkSignature`, `checkLive` — checks that stop with
  the matching cause.
-/

set_option autoImplicit false

namespace Secp256r1

/-- Why an operation of the signature interface failed. -/
inductive Error where
  /-- Key octets of the wrong number. -/
  | invalidKeyLength (context : String) (expected actual : Nat)
  /-- A scalar that is zero or not below the group order. -/
  | invalidScalarRange (context : String)
  /-- Coordinates that are not reduced, not on the curve, or stand for no finite point. -/
  | pointNotOnCurve (context : String)
  /-- A point outside the subgroup of prime order. -/
  | invalidSubgroup (context : String)
  /-- An operand that breaks a precondition, such as zero where an inverse is taken. -/
  | invalidOperand (context message : String)
  /-- A signature that is badly encoded or has a component outside `[1, n-1]`. -/
  | malformedSignature (context reason : String)
  /-- Randomness that failed or gave no usable value. -/
  | entropyUnavailable (context message : String)
  /-- A fixed-size string of the wrong length. -/
  | invalidLength (context : String) (expected actual : Nat)
  /-- A secret key used after its disposal. -/
  | keyDisposed (context : String)
deriving DecidableEq, Repr

namespace Error

/-- The name of the cause. -/
def kind : Error → String
  | invalidKeyLength .. => "InvalidKeyLength"
  | invalidScalarRange .. => "InvalidScalarRange"
  | pointNotOnCurve .. => "PointNotOnCurve"
  | invalidSubgroup .. => "InvalidSubgroup"
  | invalidOperand .. => "InvalidOperand"
  | malformedSignature .. => "MalformedSignature"
  | entropyUnavailable .. => "EntropyUnavailable"
  | invalidLength .. => "InvalidLength"
  | keyDisposed .. => "KeyDisposed"

/-- The operation that reported the error. -/
def context : Error → String
  | invalidKeyLength c _ _ | invalidScalarRange c | pointNotOnCurve c | invalidSubgroup c
  | invalidOperand c _ | malformedSignature c _ | entropyUnavailable c _
  | invalidLength c _ _ | keyDisposed c => c

/-- The same cause, reported by another operation. -/
def withContext (c : String) : Error → Error
  | invalidKeyLength _ expected actual => invalidKeyLength c expected actual
  | invalidScalarRange _ => invalidScalarRange c
  | pointNotOnCurve _ => pointNotOnCurve c
  | invalidSubgroup _ => invalidSubgroup c
  | invalidOperand _ message => invalidOperand c message
  | malformedSignature _ reason => malformedSignature c reason
  | entropyUnavailable _ message => entropyUnavailable c message
  | invalidLength _ expected actual => invalidLength c expected actual
  | keyDisposed _ => keyDisposed c

/-- The text shown to people. -/
def message : Error → String
  | invalidKeyLength c expected actual =>
    s!"{c}: invalid key length (expected {expected}, got {actual})"
  | invalidScalarRange c => s!"{c}: scalar out of range [1, n-1]"
  | pointNotOnCurve c => s!"{c}: point is not on the curve"
  | invalidSubgroup c => s!"{c}: point is not in the prime-order subgroup"
  | invalidOperand c message => s!"{c}: invalid operand: {message}"
  | malformedSignature c reason => s!"{c}: malformed signature: {reason}"
  | entropyUnavailable c message => s!"{c}: entropy unavailable: {message}"
  | invalidLength c expected actual =>
    s!"{c}: invalid length (expected {expected}, got {actual})"
  | keyDisposed c => s!"{c}: key has been disposed"

/-- Whether octets supplied by the caller are to blame. -/
def isMalformedInput : Error → Bool
  | invalidKeyLength .. | invalidScalarRange .. | pointNotOnCurve .. | invalidSubgroup ..
  | malformedSignature .. | invalidLength .. => true
  | invalidOperand .. | entropyUnavailable .. | keyDisposed .. => false

@[simp] theorem context_withContext (c : String) (e : Error) : (e.withContext c).context = c := by
  cases e <;> rfl

@[simp] theorem kind_withContext (c : String) (e : Error) : (e.withContext c).kind = e.kind := by
  cases e <;> rfl

end Error

/-- Stops unless a string has the expected length. -/
def checkLength (context : String) (actual expected : Nat) : Except Error Unit :=
  if actual = expected then .ok () else .error (.invalidLength context expected actual)

/-- Stops unless key octets have the expected number. -/
def checkKeyLength (context : String) (actual expected : Nat) : Except Error Unit :=
  if actual = expected then .ok () else .error (.invalidKeyLength context expected actual)

/-- Stops with a malformed signature unless the condition holds. -/
def checkSignature (condition : Bool) (context reason : String) : Except Error Unit :=
  if condition then .ok () else .error (.malformedSignature context reason)

/-- Stops if a key has been disposed. -/
def checkLive (disposed : Bool) (context : String) : Except Error Unit :=
  if disposed then .error (.keyDisposed context) else .ok ()

end Secp256r1
