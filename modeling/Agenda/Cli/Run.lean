import Agenda.Cli.Command
import Agenda.Cli.Report
import Agenda.Store.Basic

/-!
# Running a command

What a command prints and its exit code, as a function of the arguments and of what the host
provides. The command `serve` ends at once when the database cannot be opened, and is handed back
with its configuration when it can.
-/

namespace Agenda
namespace Cli

/-- What the surroundings provide to a run. -/
structure Host where
  today : Day
  lookup : String → Option String
  canOpen : String → Bool
  color : Bool
  elapsed : String

structure Outcome where
  code : Nat
  stdout : String
  stderr : String
deriving DecidableEq, Repr

inductive Verdict
  | exit (outcome : Outcome)
  | serve (config : Config)
deriving DecidableEq, Repr

/-- The variable that asks for a trace of every search. -/
def traceVariable : String := "NEXTDUE_DEBUG_SEARCH"

/-- The trace of the search that an evaluation makes, when it comes to a search. -/
def traceText (host : Host) (reference : Day) (anchor rule : String) : String :=
  if (host.lookup traceVariable).isSome then
    match NextDate.read anchor rule with
    | .error _ => ""
    | .ok (day, parsed) =>
      ofLines [traceLine parsed day reference (parsed.nextOccurrence reference day)]
  else ""

def runNext (host : Host) (date rule : String) (now : Option Day) (verbose color : Bool) :
    Outcome :=
  let reference := now.getD host.today
  let trace := traceText host reference date rule
  match NextDate.evaluate reference date rule with
  | .error e => ⟨1, "", trace ++ "error: " ++ e.message ++ "\n"⟩
  | .ok n =>
    if verbose then ⟨0, ofLines (reportLines color host.elapsed n), trace⟩
    else ⟨0, n.text ++ "\n", trace⟩

def runServe (host : Host) : Verdict :=
  let config := Config.ofLookup host.lookup
  if host.canOpen config.dbFile then .serve config
  else
    let e := StoreError.database (.cannotOpen config.dbFile)
    .exit ⟨1, "", "error: " ++ e.message ++ "\n"⟩

def run (host : Host) (args : List String) : Verdict :=
  match Command.parse host.color args with
  | .error e => .exit ⟨2, "", e.message ++ "\n"⟩
  | .ok .help => .exit ⟨0, helpText ++ "\n", ""⟩
  | .ok .version => .exit ⟨0, versionText ++ "\n", ""⟩
  | .ok (.next date rule now verbose color) => .exit (runNext host date rule now verbose color)
  | .ok .serve => runServe host

end Cli
end Agenda
