import Agenda.Json.Record
import Agenda.Json.Value
import Agenda.Task.Basic

/-!
# Tasks as JSON

A task is read from a record of its five texts. It is written as an object, alone in the order in
which its texts are declared, and inside an answer that lists tasks in the order of the keys.
-/

namespace Agenda
namespace Task

open Json

def fieldNames : List String := ["id", "date", "title", "comment", "repeat"]

def ofFields (fields : Fields) : Task where
  id := textOf fields "id"
  date := textOf fields "date"
  title := textOf fields "title"
  comment := textOf fields "comment"
  repeatRule := textOf fields "repeat"

def ofJson? (s : String) : Option Task := (readRecord fieldNames s).map ofFields

def toJson (task : Task) : Value :=
  .object [("id", .text task.id), ("date", .text task.date), ("title", .text task.title),
    ("comment", .text task.comment), ("repeat", .text task.repeatRule)]

/-- The object of a task with its keys in alphabetical order. -/
def toSortedJson (task : Task) : Value :=
  .object [("comment", .text task.comment), ("date", .text task.date), ("id", .text task.id),
    ("repeat", .text task.repeatRule), ("title", .text task.title)]

end Task
end Agenda
