/-!
# Diagnostic texts of values

How a record and a list of numbers are written in a diagnostic text.

* `Record.text` — `Name { field: value, … }`; `Record.hiddenText` shows no field.
* `Record.listText` — `[1, 2, …]`.
-/

set_option autoImplicit false

namespace Secp256r1

namespace Record

/-- A record with its fields, whose values are texts already. -/
def text (name : String) (fields : List (String × String)) : String :=
  name ++ " \x7b " ++ ", ".intercalate (fields.map fun f => f.1 ++ ": " ++ f.2) ++ " \x7d"

/-- A record whose fields are not shown. -/
def hiddenText (name : String) : String := name ++ " \x7b .. \x7d"

/-- A list of numbers in decimal. -/
def listText (ns : List Nat) : String :=
  "[" ++ ", ".intercalate (ns.map fun n => toString n) ++ "]"

/-- A truth value. -/
def boolText (b : Bool) : String := if b then "true" else "false"

end Record

end Secp256r1
