import Agenda.Calendar.Day

/-!
# Moments

A moment of the calendar, down to the nanosecond, and the whole seconds that have passed since 1970
began. Whatever part of a second has passed beyond them is left out, before 1970 as well as after.
-/

namespace Agenda

/-- A moment of the calendar. In a leap second the nanoseconds go on from 10^9. -/
structure Instant where
  day : Day
  second : Fin 86400
  nanosecond : Fin 2000000000
deriving DecidableEq

/-- The first day of 1970. -/
def Day.epoch : Day := ⟨719163, by decide, by decide⟩

namespace Instant

def epoch : Instant := ⟨Day.epoch, 0, 0⟩

/-- The whole seconds since 1970 began. -/
def unix (t : Instant) : Int := 86400 * (t.day.number - Day.epoch.number) + (t.second : Nat)

end Instant

end Agenda
