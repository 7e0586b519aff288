import Agenda.Rule.Basic
import Agenda.Text.Numeral

/-!
# The canonical form of a rule

A rule is written as its letter and its lists, with single spaces between them and commas inside a
list. A list names each member once, in the order of its places.
-/

namespace Agenda

open Text

/-- The members of a selection as numerals with commas between them. -/
def Vocabulary.chars {n : Nat} (v : Vocabulary n) (s : Selection n) : List Char :=
  [','].intercalate (s.toList.map fun i => decimal (v.value i))

namespace Rule

def chars : Rule → List Char
  | yearly => ['y']
  | everyDays period => 'd' :: ' ' :: digits period.days
  | weekly days => 'w' :: ' ' :: weekdays.chars days
  | monthly days none => 'm' :: ' ' :: monthDays.chars days
  | monthly days (some selected) =>
    'm' :: ' ' :: monthDays.chars days ++ ' ' :: months.chars selected

/-- The canonical text of the rule. -/
def text (rule : Rule) : String := String.ofList rule.chars

end Rule

end Agenda
