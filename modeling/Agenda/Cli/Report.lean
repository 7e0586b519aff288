import Agenda.NextDate

/-!
# Reports

The report on an evaluation, with colours or without, and the line that traces a search.
-/

namespace Agenda
namespace Cli

inductive Style
  | dim
  | bold
  | green
  | yellow
  | blue
  | cyan
  | gray
deriving DecidableEq, Repr

def Style.code : Style → String
  | dim => "\x1b[2m"
  | bold => "\x1b[1m"
  | green => "\x1b[32m"
  | yellow => "\x1b[33m"
  | blue => "\x1b[34m"
  | cyan => "\x1b[36m"
  | gray => "\x1b[90m"

def styled (color : Bool) (style : Style) (s : String) : String :=
  if color then style.code ++ s ++ "\x1b[0m" else s

def dayLine (d : Day) : String := d.isoText ++ " " ++ d.weekdayName

def modeText (horizon : Option Nat) : String :=
  match horizon with
  | some days => "scan, horizon " ++ toString days ++ " days"
  | none => "step from anchor"

/-- The lines of a report; `elapsed` is the time that the search took. -/
def reportLines (color : Bool) (elapsed : String) (n : NextDate) : List String :=
  let trace := n.occurrence.trace
  let field (label : String) (style : Style) (value : String) : String :=
    "  " ++ styled color .dim label ++ " " ++ styled color style value
  ["",
   styled color .bold (styled color .cyan ("⚙  Rule: \"" ++ n.rule.text ++ "\"")),
   "",
   styled color .gray "━━━ Input ━━━",
   field "anchor:   " .yellow (dayLine n.anchor),
   field "reference:" .yellow (dayLine n.reference),
   "",
   styled color .gray "━━━ Search ━━━",
   field "mode:           " .blue (modeText trace.horizon),
   field "first candidate:" .blue trace.firstCandidate.isoText,
   field "steps:          " .blue (toString trace.steps),
   "",
   styled color .gray "━━━ Result ━━━",
   "  " ++ styled color .bold (styled color .green n.text),
   "",
   styled color .gray "━━━ Timing ━━━",
   "  Search: " ++ styled color .green elapsed,
   "",
   styled color .dim "  Tip: Set NEXTDUE_DEBUG_SEARCH=1 to trace every search",
   ""]

def ofLines (lines : List String) : String := String.join (lines.map (· ++ "\n"))

/-- The line that traces a search and its result. -/
def traceLine (rule : Rule) (anchor reference : Day)
    (result : Except SearchError Occurrence) : String :=
  let head := "[search] rule=\"" ++ rule.text ++ "\" anchor=" ++ anchor.isoText ++
    " reference=" ++ reference.isoText
  match result with
  | .error e => head ++ " -> " ++ e.message
  | .ok o =>
    head ++ " start=" ++ o.trace.firstCandidate.isoText ++ " steps=" ++ toString o.trace.steps ++
      " -> " ++ o.day.isoText

end Cli
end Agenda
