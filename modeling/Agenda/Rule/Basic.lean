import Agenda.Calendar.Month
import Agenda.Rule.Selection

/-!
# Repeat rules

A rule repeats a day every year, every few days, on weekdays of a selection, or on days of the
month of a selection and, where there is one, in the months of another. The numbers by which a
written rule names the members of a selection are a `Vocabulary`: weekdays and months are counted
from 1, and a day of the month is also named from the end of the month, by -1 and -2.
-/

namespace Agenda

/-- The numeric parameters of a written rule. -/
inductive Parameter
  | dayCount
  | weekday
  | dayOfMonth
  | month
deriving DecidableEq, Repr

namespace Parameter

def name : Parameter → String
  | dayCount => "day count"
  | weekday => "weekday"
  | dayOfMonth => "day of month"
  | month => "month"

/-- The values that the parameter may have, as an error names them. -/
def allowed : Parameter → String
  | dayCount => "1..=400"
  | weekday => "1..=7"
  | dayOfMonth => "1..=31, -1 or -2"
  | month => "1..=12"

end Parameter

/-- The numbers that name the members of a selection. -/
structure Vocabulary (n : Nat) where
  parameter : Parameter
  value : Fin n → Int
  index? : Int → Option (Fin n)
  index?_eq_some_iff : ∀ v i, index? v = some i ↔ value i = v

def Vocabulary.counted (parameter : Parameter) (n : Nat) : Vocabulary n where
  parameter := parameter
  value i := i + 1
  index? v := if h : 1 ≤ v ∧ v ≤ n then some ⟨(v - 1).toNat, by omega⟩ else none
  index?_eq_some_iff v i := by
    split
    · rw [Option.some.injEq, Fin.ext_iff]
      dsimp only
      omega
    · simp only [reduceCtorEq, false_iff]
      omega

def weekdays : Vocabulary 7 := .counted .weekday 7

def months : Vocabulary 12 := .counted .month 12

def lastPlace : Nat := 31

def secondLastPlace : Nat := 32

/-- The days 1 to 31, then the last day of the month and the one before it. -/
def monthDays : Vocabulary 33 where
  parameter := .dayOfMonth
  value i := if i = lastPlace then -1 else if i = secondLastPlace then -2 else i + 1
  index? v :=
    if v = -1 then some ⟨lastPlace, by decide⟩
    else if v = -2 then some ⟨secondLastPlace, by decide⟩
    else if h : 1 ≤ v ∧ v ≤ 31 then some ⟨(v - 1).toNat, by omega⟩
    else none
  index?_eq_some_iff v i := by
    unfold lastPlace secondLastPlace
    split
    · rw [Option.some.injEq, Fin.ext_iff]
      split <;> try split
      all_goals dsimp only; omega
    · split
      · rw [Option.some.injEq, Fin.ext_iff]
        split <;> try split
        all_goals dsimp only; omega
      · split
        · rw [Option.some.injEq, Fin.ext_iff]
          split <;> try split
          all_goals dsimp only; omega
        · simp only [reduceCtorEq, false_iff]
          split <;> try split
          all_goals omega

def maxPeriod : Nat := 400

/-- The number of days between two occurrences of a daily rule. -/
structure Period where
  days : Nat
  one_le : 1 ≤ days
  le_max : days ≤ maxPeriod
deriving DecidableEq

def Period.ofInt? (n : Int) : Option Period :=
  if h : 1 ≤ n ∧ n ≤ maxPeriod then some ⟨n.toNat, by omega, by omega⟩ else none

inductive Rule
  | yearly
  | everyDays (period : Period)
  | weekly (days : Selection 7)
  | monthly (days : Selection 33) (months : Option (Selection 12))
deriving DecidableEq

namespace Selection

def admitsWeekday (s : Selection 7) (d : Day) : Bool := s.contains d.weekday

def admitsMonth (s : Selection 12) (d : Day) : Bool := s.contains (d.month - 1)

/-- The day's place in its month is selected, by its number or from the end of the month. -/
def admitsMonthDay (s : Selection 33) (d : Day) : Except CalendarFault Bool :=
  if s.contains (d.dayOfMonth - 1) then .ok true
  else
    match d.lastDayOfMonth with
    | .error e => .error e
    | .ok length =>
      .ok ((s.contains lastPlace && d.dayOfMonth == length) ||
        (s.contains secondLastPlace && d.dayOfMonth + 1 == length))

end Selection

end Agenda
