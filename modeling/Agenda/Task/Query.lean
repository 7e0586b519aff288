import Agenda.Calendar.Text
import Agenda.Text.Blank

/-!
# Queries for tasks

A search text asks for all tasks when it is blank, for the tasks of a day when it is that day's
date with dots, `DD.MM.YYYY`, and else for the tasks that contain the trimmed text.
-/

namespace Agenda

open Text

inductive Query
  | all
  | onDate (date : String)
  | containing (text : String)
deriving DecidableEq, Repr

namespace Query

/-- Reads a day in the form with dots. -/
def dottedDay? : List Char → Option Day
  | [d₁, d₂, '.', m₁, m₂, '.', y₁, y₂, y₃, y₄] => Day.ofChars? [y₁, y₂, y₃, y₄, m₁, m₂, d₁, d₂]
  | _ => none

def parse (raw : String) : Query :=
  let text := trim raw
  if text = "" then .all
  else
    match dottedDay? text.toList with
    | some day => .onDate day.text
    | none => .containing text

/-- The number of tasks in an answer when the request gives none that is allowed. -/
def defaultLimit : Nat := 50

def maxLimit : Nat := 100

/-- The number of tasks that a request asks for; one outside the allowed range is not heeded. -/
def limit (raw : Option String) : Nat :=
  match raw.bind fun s => readNat? word64Max (trimmed s.toList) with
  | none => defaultLimit
  | some n => if 1 ≤ n ∧ n ≤ maxLimit then n else defaultLimit

end Query

end Agenda
