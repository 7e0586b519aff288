import Agenda.Store.Like
import Agenda.Task.Query
import Agenda.Task.Basic

/-!
# The store of tasks

A store holds rows under ascending ids, and the highest id that it has ever handed out; an id is
never handed out again. Ids cross the boundary as texts. A task that is listed or looked up has
its row's id in canonical form.
-/

namespace Agenda

open Text

structure Row where
  id : Nat
  date : String
  title : String
  comment : String
  repeatRule : String
deriving DecidableEq, Repr

namespace Row

def toTask (row : Row) : Task :=
  ⟨String.ofList (digits row.id), row.date, row.title, row.comment, row.repeatRule⟩

/-- The texts of a task under an id; the task's own id is not heeded. -/
def ofTask (id : Nat) (task : Task) : Row :=
  ⟨id, task.date, task.title, task.comment, task.repeatRule⟩

/-- Earlier dates come first, and the lower id of one date. -/
def before (a b : Row) : Bool := a.date < b.date || (a.date == b.date && a.id ≤ b.id)

end Row

/-- What the database itself refuses. -/
inductive DatabaseError
  | patternTooComplex
  | cannotOpen (path : String)
deriving DecidableEq, Repr

def DatabaseError.message : DatabaseError → String
  | patternTooComplex => "LIKE or GLOB pattern too complex"
  | cannotOpen path => "unable to open database file: " ++ path

inductive StoreError
  | badId
  | notFound
  | badDate
  | database (cause : DatabaseError)
deriving DecidableEq, Repr

def StoreError.message : StoreError → String
  | badId => "bad id"
  | notFound => "task not found"
  | badDate => "bad date format"
  | database cause => "sqlite error: " ++ cause.message

/-- The rows that are kept and the highest id handed out. -/
structure Store where
  rows : List Row
  lastId : Nat
deriving DecidableEq, Repr

/-- A positive 64-bit integer, with blanks around it. -/
def readId (raw : String) : Except StoreError Nat :=
  match readInt64 (trimmed raw.toList) with
  | .value n => if 0 < n then .ok n.toNat else .error .badId
  | _ => .error .badId

def maxPatternBytes : Nat := 50000

namespace Store

def empty : Store := ⟨[], 0⟩

def row? (s : Store) (id : Nat) : Option Row := s.rows.find? fun row => row.id == id

/-- Keeps the task in a new row, under an id that was never handed out. The database fails instead
once the id 2^63 - 1 has been; that no store gets so far is taken for granted. -/
def add (s : Store) (task : Task) : Store × Nat :=
  (⟨s.rows ++ [Row.ofTask (s.lastId + 1) task], s.lastId + 1⟩, s.lastId + 1)

def get (s : Store) (id : String) : Except StoreError Task :=
  match readId id with
  | .error e => .error e
  | .ok n =>
    match s.row? n with
    | none => .error .notFound
    | some row => .ok row.toTask

def change (s : Store) (id : Nat) (f : Row → Row) : Except StoreError Store :=
  match s.row? id with
  | none => .error .notFound
  | some _ => .ok { s with rows := s.rows.map fun row => if row.id = id then f row else row }

def update (s : Store) (task : Task) : Except StoreError Store :=
  match readId task.id with
  | .error e => .error e
  | .ok n => s.change n fun _ => Row.ofTask n task

def delete (s : Store) (id : String) : Except StoreError Store :=
  match readId id with
  | .error e => .error e
  | .ok n =>
    match s.row? n with
    | none => .error .notFound
    | some _ => .ok { s with rows := s.rows.filter fun row => row.id != n }

/-- Moves the row with an id to a date, which is eight bytes long when it is trimmed. -/
def setDate (s : Store) (id date : String) : Except StoreError Store :=
  let date := trim date
  if date.utf8ByteSize ≠ 8 then .error .badDate
  else
    match readId id with
    | .error e => .error e
    | .ok n => s.change n fun row => { row with date := date }

def containing (text : String) : List Char := '%' :: text.toList ++ ['%']

def isMatch (query : Query) (row : Row) : Bool :=
  match query with
  | .all => true
  | .onDate date => row.date == date
  | .containing text =>
    Like.matchesPattern (containing text) row.title.toList ||
      Like.matchesPattern (containing text) row.comment.toList

/-- The query cannot be tested on a row. -/
def isTooComplex : Query → Bool
  | .containing text => maxPatternBytes < text.utf8ByteSize + 2
  | _ => false

/-- The number of rows that the database is asked for, which is an integer of 64 bits. -/
def rowLimit (limit : Nat) : Nat := min limit int64Max.toNat

/-- The first rows that match the query, by date and then by id. A query that is too complex
fails when there is a row to test. -/
def list (s : Store) (query : Query) (limit : Nat) : Except StoreError (List Task) :=
  if isTooComplex query && !s.rows.isEmpty && rowLimit limit ≠ 0 then
    .error (.database .patternTooComplex)
  else
    let rows := (s.rows.filter (isMatch query)).mergeSort Row.before
    .ok ((rows.take (rowLimit limit)).map Row.toTask)

end Store

end Agenda
