import Secp256r1.Demo.Session
import Std.Time.Format

/-!
# The command line

Runs the demonstration on the arguments of the process.  The environment chooses the
verbosity, the operating system supplies the random octets, and every record is stamped with
the time at which it is printed.
-/

set_option autoImplicit false

namespace Secp256r1

namespace Demo

/-- The first report within a limit, which is doubled until there is one. -/
partial def settle (run : Nat → Option Report) (limit : Nat) : IO Report :=
  match run limit with
  | some report => pure report
  | none => settle run (2 * limit)

/-- The time, with a space after it. -/
def stamp : IO String := do
  let now := Std.Time.DateTime.ofTimestamp (← Std.Time.Timestamp.now) .UTC
  return now.format "uuuu-MM-dd'T'HH:mm:ss'Z'" ++ " "

/-- The verbosity that the environment asks for. -/
def verbosity : IO Verbosity := do
  let asked ← IO.getEnv "RUST_LOG"
  return (asked.bind Verbosity.ofName?).getD .standard

/-- Random octets, enough for every draw that one signature may make. -/
def tape : IO ByteArray := IO.getRandomBytes (USize.ofNat (32 * maxRandomDraws))

end Demo

end Secp256r1

open Secp256r1

/-- Runs the demonstration and hands out its exit code. -/
def main (arguments : List String) : IO UInt32 := do
  match Demo.Request.ofArguments arguments with
  | .error e =>
    IO.eprintln ("error: " ++ e.message)
    return 2
  | .ok request =>
    let verbosity ← Demo.verbosity
    let tape := (← Demo.tape).toList
    let report ← Demo.settle (request.carryOut · .tape tape verbosity) 1024
    IO.print report.stdout
    for entry in report.entries do
      for line in entry.lines (← Demo.stamp) do
        IO.eprintln line
    return report.exitCode
