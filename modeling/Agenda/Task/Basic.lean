import Agenda.NextDate

/-!
# Tasks

A task is five texts. `prepare` is the check that a task passes before it is kept: its title and
its rule are trimmed, its date is a day that is not before today, and a rule that it has must have
a next date. `completion` says what becomes of a kept task when it is done.
-/

namespace Agenda

open Text

structure Task where
  id : String
  date : String
  title : String
  comment : String
  repeatRule : String
deriving DecidableEq, Repr, Inhabited

inductive TaskError
  | emptyTitle
  | badDate
  | repeatRule (cause : NextDateError)
deriving DecidableEq

def TaskError.message : TaskError → String
  | emptyTitle => "empty title"
  | badDate => "bad date format (need YYYYMMDD)"
  | repeatRule cause => cause.message

inductive Completion
  | delete
  | reschedule (date : String)
deriving DecidableEq, Repr

namespace Task

/-- The next date after `reference` of a rule that may be absent. -/
def nextDate? (reference : Day) (date rule : String) : Except TaskError (Option String) :=
  if rule = "" then .ok none
  else
    match nextDate reference date rule with
    | .error e => .error (.repeatRule e)
    | .ok next => .ok (some next)

/-- The task as it is kept from `today` on. A past date moves to the next date of the rule. -/
def prepare (task : Task) (today : Day) : Except TaskError Task :=
  let title := trim task.title
  let rule := trim task.repeatRule
  let written := trim task.date
  if title = "" then .error .emptyTitle
  else
    let date := if written = "" then today.text else written
    match Day.ofText? date with
    | none => .error .badDate
    | some day =>
      match nextDate? today date rule with
      | .error e => .error e
      | .ok next =>
        .ok { task with
          title := title
          repeatRule := rule
          date := if day < today then next.getD today.text else date }

/-- A task with a rule moves to the next date after its own, counted from its own. -/
def completion (task : Task) : Except TaskError Completion :=
  let rule := trim task.repeatRule
  if rule = "" then .ok .delete
  else
    match Day.ofText? (trim task.date) with
    | none => .error .badDate
    | some day =>
      match nextDate day task.date rule with
      | .error e => .error (.repeatRule e)
      | .ok next => .ok (.reschedule next)

end Task

end Agenda
