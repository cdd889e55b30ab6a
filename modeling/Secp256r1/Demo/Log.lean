/-!
# Log records

What the demonstration reports as it goes along, with the level of each record, and how
records become lines.

* `Entry.isShown` — whether a record passes a filter.
* `Entry.lines` — a record as lines: the level padded to five characters, and four
  spaces in front of every further line.
-/

set_option autoImplicit false

namespace Secp256r1

namespace Demo

/-- The weight of a log record, the weightiest first. -/
inductive Level where
  | error
  | warn
  | info
  | debug
  | trace
deriving DecidableEq, Repr

namespace Level

/-- The name, padded to five characters. -/
def label : Level → String
  | error => "ERROR"
  | warn => "WARN "
  | info => "INFO "
  | debug => "DEBUG"
  | trace => "TRACE"

/-- Lower ranks weigh more. -/
def rank : Level → Nat
  | error => 0
  | warn => 1
  | info => 2
  | debug => 3
  | trace => 4

end Level

/-- What is shown: nothing, or the records of a level and of the weightier ones. -/
inductive Verbosity where
  | silent
  | upTo (level : Level)
deriving DecidableEq, Repr

namespace Verbosity

/-- The verbosity that a name stands for, whatever its case. -/
def ofName? (name : String) : Option Verbosity :=
  match name.toLower with
  | "off" => some .silent
  | "error" => some (.upTo .error)
  | "warn" => some (.upTo .warn)
  | "info" => some (.upTo .info)
  | "debug" => some (.upTo .debug)
  | "trace" => some (.upTo .trace)
  | _ => none

/-- The verbosity when none is asked for. -/
def standard : Verbosity := .upTo .info

/-- Whether records of a level are shown. -/
def shows : Verbosity → Level → Bool
  | silent, _ => false
  | upTo least, level => level.rank ≤ least.rank

end Verbosity

/-- A log record. -/
structure Entry where
  level : Level
  text : String
deriving DecidableEq, Repr

namespace Entry

/-- Whether the record is shown. -/
def isShown (verbosity : Verbosity) (e : Entry) : Bool := verbosity.shows e.level

/-- The lines of the record, with a stamp in front of the level. -/
def lines (stamp : String) (e : Entry) : List String :=
  match e.text.splitOn "\n" with
  | [] => []
  | first :: rest =>
    ("[" ++ stamp ++ e.level.label ++ " ecsig_demo] " ++ first) :: rest.map ("    " ++ ·)

end Entry

end Demo

end Secp256r1
