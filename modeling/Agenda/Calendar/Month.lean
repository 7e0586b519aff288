import Agenda.Calendar.Day

/-!
# Month lengths and whole years

The length of a month is the day of the month before the first day of the next one. A month whose
next month the calendar does not hold has 31 days, and the one question without an answer is the
day before the first day of the calendar. Moving a day by whole years keeps its month, and its day
of the month as far as the target month has it.
-/

namespace Agenda

/-- A question that the calendar cannot answer. -/
inductive CalendarFault
  | beforeFirstDay
deriving DecidableEq, Repr

def CalendarFault.message : CalendarFault → String
  | .beforeFirstDay => "no day before the first day of the calendar"

/-- The first day of the month after the given one. -/
def nextMonth (year : Int) (month : Nat) : Date :=
  if month = 12 then ⟨year + 1, 1, 1⟩ else ⟨year, month + 1, 1⟩

def daysInMonth (year : Int) (month : Nat) : Except CalendarFault Nat :=
  match Day.ofDate? (nextMonth year month) with
  | none => .ok 31
  | some start =>
    match start.prev? with
    | none => .error .beforeFirstDay
    | some d => .ok d.dayOfMonth

namespace Day

def lastDayOfMonth (d : Day) : Except CalendarFault Nat := daysInMonth d.year d.month

/-- The day `years` years later, or earlier when `years` is negative. -/
def addYears (d : Day) (years : Int) : Except CalendarFault (Option Day) :=
  match daysInMonth (d.year + years) d.month with
  | .error e => .error e
  | .ok length => .ok (ofDate? ⟨d.year + years, d.month, min d.dayOfMonth length⟩)

theorem add_le_lastYear_of_addYears {d e : Day} {years : Int}
    (h : d.addYears years = .ok (some e)) : d.year + years ≤ lastYear := by
  unfold addYears at h
  split at h
  · cases h
  · exact (isReal_of_ofDate? (Except.ok.inj h)).2.2.1

end Day

end Agenda
