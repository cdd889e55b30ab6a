import Secp256r1.ArithmeticError
import Secp256r1.Text.Quoted
import Secp256r1.Text.Record

/-!
# Diagnostic texts of errors

An error as the record of its cause, with every field named and texts in quotes.
-/

set_option autoImplicit false

namespace Secp256r1

/-- The fields of an error with their names. -/
def Error.fields : Error → List (String × String)
  | invalidKeyLength c expected actual | invalidLength c expected actual =>
    [("context", Quoted.text c), ("expected", toString expected), ("actual", toString actual)]
  | invalidScalarRange c | pointNotOnCurve c | invalidSubgroup c | keyDisposed c =>
    [("context", Quoted.text c)]
  | invalidOperand c message | entropyUnavailable c message =>
    [("context", Quoted.text c), ("message", Quoted.text message)]
  | malformedSignature c reason => [("context", Quoted.text c), ("reason", Quoted.text reason)]

/-- The error as a record. -/
def Error.debugText (e : Error) : String := Record.text e.kind e.fields

/-- The fields of an arithmetic error with their names. -/
def ArithmeticError.fields : ArithmeticError → List (String × String)
  | parameter name reason => [("name", Quoted.text name), ("reason", Quoted.text reason)]
  | length c expected actual =>
    [("context", Quoted.text c), ("expected", toString expected), ("actual", toString actual)]
  | scalarRange c | pointNotOnCurve c | invalidSubgroup c => [("context", Quoted.text c)]
  | invalidOperand operation details =>
    [("operation", Quoted.text operation), ("details", Quoted.text details)]

/-- The arithmetic error as a record. -/
def ArithmeticError.debugText (e : ArithmeticError) : String := Record.text e.kind e.fields

end Secp256r1
