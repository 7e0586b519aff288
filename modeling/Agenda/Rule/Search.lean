import Agenda.Rule.Printer

/-!
# Searching the next occurrence

The search answers the first occurrence of a rule, counted from an anchor, that is later than a
reference day. Yearly and daily rules go from the anchor in equal steps until the reference is
passed; a yearly step always moves the anchor itself. Weekly and monthly rules test one day after
the other, from the day after the later one of anchor and reference, up to a horizon. The anchor
is no occurrence.
-/

namespace Agenda

/-- The days that the search for a weekday tests at most. -/
def weeklyHorizon : Nat := 366 * 5

/-- The days that the search for a day of the month tests at most. -/
def monthlyHorizon : Nat := 366 * 6

/-- Why a rule has no next occurrence. -/
inductive SearchError
  | horizonExhausted (rule : Rule) (horizon : Nat)
  | calendarOverflow (rule : Rule)
  | fault (cause : CalendarFault)
deriving DecidableEq

def SearchError.message : SearchError → String
  | horizonExhausted rule horizon =>
    "no next date for '" ++ rule.text ++ "' within " ++ toString horizon ++ " days"
  | calendarOverflow rule =>
    "next date for '" ++ rule.text ++ "' is outside the supported calendar"
  | fault cause => cause.message

structure Trace where
  firstCandidate : Day
  steps : Nat
  horizon : Option Nat
deriving DecidableEq

structure Occurrence where
  day : Day
  trace : Trace
deriving DecidableEq

namespace Search

/-- Moves on from `candidate`, the anchor `years` years later, until the reference is passed. -/
def yearsPast (reference anchor candidate : Day) (years : Nat) :
    Except SearchError (Day × Nat) :=
  if candidate ≤ reference then
    match h : anchor.addYears (years + 1 : Nat) with
    | .error e => .error (.fault e)
    | .ok none => .error (.calendarOverflow .yearly)
    | .ok (some next) => yearsPast reference anchor next (years + 1)
  else .ok (candidate, years)
termination_by (lastYear - (anchor.year + years)).toNat
decreasing_by
  have := Day.add_le_lastYear_of_addYears h
  omega

def yearly (reference anchor : Day) : Except SearchError Occurrence :=
  match anchor.addYears 1 with
  | .error e => .error (.fault e)
  | .ok none => .error (.calendarOverflow .yearly)
  | .ok (some start) =>
    match yearsPast reference anchor start 1 with
    | .error e => .error e
    | .ok (day, steps) => .ok ⟨day, start, steps, none⟩

/-- Moves on from `candidate`, which `steps` steps have reached, until the reference is passed. -/
def daysPast (reference : Day) (period : Period) (candidate : Day) (steps : Nat) :
    Except SearchError (Day × Nat) :=
  if candidate ≤ reference then
    match h : candidate.addDays? period.days with
    | none => .error (.calendarOverflow (.everyDays period))
    | some next => daysPast reference period next (steps + 1)
  else .ok (candidate, steps)
termination_by (reference.number - candidate.number + 1).toNat
decreasing_by
  have hle : candidate.number ≤ reference.number := by assumption
  have := Day.number_of_addDays? h
  have := period.one_le
  omega

def everyDays (reference anchor : Day) (period : Period) : Except SearchError Occurrence :=
  match anchor.addDays? period.days with
  | none => .error (.calendarOverflow (.everyDays period))
  | some start =>
    match daysPast reference period start 1 with
    | .error e => .error e
    | .ok (day, steps) => .ok ⟨day, start, steps, none⟩

/-- Tests `left` days from `day` on. A day that fails must have a next one, even the last. -/
def admittedFrom (rule : Rule) (horizon : Nat) (admits : Day → Except CalendarFault Bool)
    (start day : Day) (steps : Nat) : Nat → Except SearchError Occurrence
  | 0 => .error (.horizonExhausted rule horizon)
  | left + 1 =>
    match admits day with
    | .error e => .error (.fault e)
    | .ok true => .ok ⟨day, start, steps, some horizon⟩
    | .ok false =>
      match day.next? with
      | none => .error (.calendarOverflow rule)
      | some next => admittedFrom rule horizon admits start next (steps + 1) left

/-- The first admitted day after the anchor and the reference. -/
def firstAdmitted (rule : Rule) (horizon : Nat) (admits : Day → Except CalendarFault Bool)
    (reference anchor : Day) : Except SearchError Occurrence :=
  match (max anchor reference).next? with
  | none => .error (.calendarOverflow rule)
  | some start => admittedFrom rule horizon admits start start 1 horizon

def admitsMonthly (days : Selection 33) (selected : Option (Selection 12)) (d : Day) :
    Except CalendarFault Bool :=
  if selected.all fun s => s.admitsMonth d then days.admitsMonthDay d else .ok false

end Search

namespace Rule

/-- The first occurrence after the reference, counted from the anchor. -/
def nextOccurrence (reference anchor : Day) : Rule → Except SearchError Occurrence
  | yearly => Search.yearly reference anchor
  | everyDays period => Search.everyDays reference anchor period
  | weekly days =>
    Search.firstAdmitted (weekly days) weeklyHorizon (fun d => .ok (days.admitsWeekday d))
      reference anchor
  | monthly days selected =>
    Search.firstAdmitted (monthly days selected) monthlyHorizon
      (Search.admitsMonthly days selected) reference anchor

end Rule

end Agenda
