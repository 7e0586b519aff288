import Agenda.Calendar.Day
import Agenda.Text.Numeral

/-!
# The written form of days

A day is read from exactly eight ASCII digits, `YYYYMMDD`. It is written in the same form, or with
hyphens between its fields; a year outside 0 to 9999 has a sign and at least four digits.
-/

namespace Agenda

open Text

def fieldValue (digits : List Char) : Nat :=
  digits.foldl (fun n c => 10 * n + digitValue c) 0

def yearText (year : Int) : List Char :=
  if 0 ≤ year ∧ year ≤ 9999 then padded 4 year.natAbs
  else (if year < 0 then '-' else '+') :: padded 4 year.natAbs

namespace Day

/-- Reads the eight digits of a day. -/
def ofChars? : List Char → Option Day
  | [y₁, y₂, y₃, y₄, m₁, m₂, d₁, d₂] =>
    if [y₁, y₂, y₃, y₄, m₁, m₂, d₁, d₂].all Char.isDigit then
      ofDate? ⟨fieldValue [y₁, y₂, y₃, y₄], fieldValue [m₁, m₂], fieldValue [d₁, d₂]⟩
    else none
  | _ => none

def ofText? (s : String) : Option Day := ofChars? s.toList

def chars (d : Day) : List Char :=
  yearText d.year ++ padded 2 d.month ++ padded 2 d.dayOfMonth

def text (d : Day) : String := String.ofList d.chars

/-- The form with hyphens. -/
def isoText (d : Day) : String :=
  String.ofList (yearText d.year ++ '-' :: padded 2 d.month ++ '-' :: padded 2 d.dayOfMonth)

def weekdayName (d : Day) : String :=
  match d.weekday with
  | 0 => "Mon"
  | 1 => "Tue"
  | 2 => "Wed"
  | 3 => "Thu"
  | 4 => "Fri"
  | 5 => "Sat"
  | 6 => "Sun"

end Day

end Agenda
