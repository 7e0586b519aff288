import Agenda.Config

/-!
# Help texts of the command line
-/

namespace Agenda
namespace Cli

def versionText : String := "nextdue 0.1.0"

def helpText : String :=
  versionText ++ "

Task scheduler with recurring due dates.

Usage:
  nextdue next --date <YYYYMMDD> --repeat <rule> [OPTIONS]
  nextdue serve

Commands:
  next                       Print the next occurrence of a repeating task.
  serve                      Run the HTTP service (configured via TODO_* env vars).

Options for next:
  -d, --date <YYYYMMDD>      Anchor date of the task.
  -r, --repeat <rule>        Repeat rule: y | d <1..400> | w <1..7,...> | m <days> [months].
  -n, --now <YYYYMMDD>       Reference date. Default: today.
  -v, --verbose              Print a report with the parsed rule and search trace.
  --color                    Force ANSI color output.
  --no-color                 Disable ANSI color output.
  -h, --help                 Show this help message.
  -V, --version              Print version information.

Environment (serve):
  TODO_PORT       Listen port (default " ++ toString Config.defaultPort ++ ").
  TODO_DBFILE     SQLite database file (default " ++ Config.defaultDbFile ++ ").
  TODO_PASSWORD   Shared password; unset leaves the API open.
  TODO_WEBDIR     Static files directory (default " ++ Config.defaultWebDir ++ ").
  RUST_LOG        Log filter (default info).

Exit codes:
  0  Success.
  1  Rule evaluation or server error.
  2  Invalid arguments.
"

end Cli
end Agenda
