import Agenda.Calendar.Text
import Agenda.Rule.Parser
import Agenda.Rule.Search

/-!
# The next date of a written rule

From the texts of an anchor and of a rule, and a reference day, to the next date or the reason why
there is none. A blank rule is found first, then a malformed anchor, then a malformed rule.
-/

namespace Agenda

open Text

inductive NextDateError
  | emptyRule
  | malformedAnchor (raw : String)
  | rule (cause : RuleError)
  | search (cause : SearchError)
deriving DecidableEq

def NextDateError.message : NextDateError → String
  | emptyRule => "empty repeat rule"
  | malformedAnchor raw => "bad date '" ++ raw ++ "' (expected YYYYMMDD)"
  | rule cause => cause.message
  | search cause => cause.message

/-- The next date of a rule, with what was read and how the date was found. -/
structure NextDate where
  rule : Rule
  anchor : Day
  reference : Day
  occurrence : Occurrence
deriving DecidableEq

namespace NextDate

def text (n : NextDate) : String := n.occurrence.day.text

/-- Reads the anchor and the rule; a malformed anchor is named as it was given. -/
def read (anchor rule : String) : Except NextDateError (Day × Rule) :=
  if trim rule = "" then .error .emptyRule
  else
    match Day.ofText? (trim anchor) with
    | none => .error (.malformedAnchor anchor)
    | some day =>
      match Rule.parse (trim rule) with
      | .error e => .error (.rule e)
      | .ok parsed => .ok (day, parsed)

def evaluate (reference : Day) (anchor rule : String) : Except NextDateError NextDate :=
  match read anchor rule with
  | .error e => .error e
  | .ok (day, parsed) =>
    match parsed.nextOccurrence reference day with
    | .error e => .error (.search e)
    | .ok occurrence => .ok ⟨parsed, day, reference, occurrence⟩

end NextDate

def nextDate (reference : Day) (anchor rule : String) : Except NextDateError String :=
  (NextDate.evaluate reference anchor rule).map NextDate.text

end Agenda
