import Agenda.Cli.Run
import Std.Time.Zoned

/-!
# The program

Hands the arguments and the surroundings to the command line, and prints what it answers.
-/

namespace Agenda
namespace Cli

/-- A number of nanoseconds in the largest unit that it fills. -/
def durationText (nanos : Nat) : String :=
  let inUnit (unit : Nat) (name : String) : String :=
    let places := (Nat.toDigits 10 (unit + nanos % unit)).drop 1
    let fraction := (places.reverse.dropWhile (· == '0')).reverse
    let tail := if fraction.isEmpty then "" else String.ofList ('.' :: fraction)
    toString (nanos / unit) ++ tail ++ name
  if nanos < 1000 then toString nanos ++ "ns"
  else if nanos < 1000000 then inUnit 1000 "µs"
  else if nanos < 1000000000 then inUnit 1000000 "ms"
  else inUnit 1000000000 "s"

def today : IO Day := do
  let d ← Std.Time.PlainDate.now
  match Day.ofDate? ⟨d.year.toInt, d.month.toNat, d.day.toNat⟩ with
  | some day => return day
  | none => throw (.userError "the clock shows a day outside the calendar")

/-- The values of the variables that a run may look up. -/
def environment : IO (List (String × String)) := do
  let names := [traceVariable, "TODO_PORT", "TODO_DBFILE", "TODO_PASSWORD", "TODO_WEBDIR"]
  names.filterMapM fun name => do return (← IO.getEnv name).map (name, ·)

/-- The file can be opened, and is created when there is none. -/
def canOpen (path : String) : IO Bool := do
  try
    let _ ← IO.FS.Handle.mk path .append
    return true
  catch _ => return false

def finish : Verdict → IO UInt32
  | .exit outcome => do
    IO.print outcome.stdout
    IO.eprint outcome.stderr
    return outcome.code.toUInt32
  | .serve config => do
    IO.eprintln ("error: nothing listens on port " ++ toString config.port)
    return 1

end Cli
end Agenda

open Agenda.Cli in
def main (args : List String) : IO UInt32 := do
  let env ← environment
  let lookup (name : String) : Option String := env.lookup name
  let opened ← if args = ["serve"] then canOpen (Agenda.Config.ofLookup lookup).dbFile
    else pure false
  let color ← (← IO.getStdout).isTty
  let day ← today
  let host (elapsed : String) : Host := ⟨day, lookup, fun _ => opened, color, elapsed⟩
  let start ← IO.monoNanosNow
  match run (host "") args with
  | .serve config => finish (.serve config)
  | .exit _ =>
    let stop ← IO.monoNanosNow
    finish (run (host (durationText (stop - start))) args)
