import Agenda.Fields
import Agenda.Json.Skip

/-!
# Reading records of texts

A record is a list of named texts. It is read from an object, whose unknown members are skipped
and whose known members are texts and occur once, or from an array of texts in the order of the
names. A text that is left out is empty. Nothing but space may stand around the record.
-/

namespace Agenda
namespace Json

def readQuoted (s : List Char) : Option (String × List Char) :=
  match skipSpace s with
  | '"' :: rest => readText [] rest
  | _ => none

theorem length_lt_of_readQuoted {s rest : List Char} {t : String}
    (h : readQuoted s = some (t, rest)) : rest.length < s.length := by
  unfold readQuoted at h
  split at h
  · rename_i hs
    exact Nat.lt_trans (length_lt_of_readText h) (length_lt_of_skipSpace_cons hs)
  · cases h

def readKey (s : List Char) : Option (String × List Char) :=
  match readQuoted s with
  | none => none
  | some (key, rest) =>
    match skipSpace rest with
    | ':' :: rest => some (key, rest)
    | _ => none

theorem length_lt_of_readKey {s rest : List Char} {key : String}
    (h : readKey s = some (key, rest)) : rest.length < s.length := by
  unfold readKey at h
  split at h
  · cases h
  · rename_i hq
    split at h
    · rename_i hr
      cases h
      exact Nat.lt_trans (length_lt_of_skipSpace_cons hr) (length_lt_of_readQuoted hq)
    · cases h

/-- Reads the value of a member: a text under one of the names, and else any value. -/
def readMember (names : List String) (fields : Fields) (key : String) (s : List Char) :
    Option (Fields × List Char) :=
  if key ∈ names then
    if isGiven fields key then none
    else
      match readQuoted s with
      | none => none
      | some (value, rest) => some ((key, value) :: fields, rest)
  else
    match skipValue s with
    | none => none
    | some rest => some (fields, rest)

theorem length_le_of_readMember {names : List String} {fields fields' : Fields} {key : String}
    {s rest : List Char} (h : readMember names fields key s = some (fields', rest)) :
    rest.length ≤ s.length := by
  unfold readMember at h
  split at h
  · split at h
    · cases h
    · split at h
      · cases h
      · rename_i hq
        cases h
        exact Nat.le_of_lt (length_lt_of_readQuoted hq)
  · split at h
    · cases h
    · rename_i hs
      cases h
      exact length_le_of_skipFrom hs

set_option linter.unusedVariables false in
/-- Reads members up to the bracket that closes the object; there is at least one. -/
def readMembers (names : List String) (fields : Fields) (s : List Char) :
    Option (Fields × List Char) :=
  match hk : readKey s with
  | none => none
  | some (key, value) =>
    match hm : readMember names fields key value with
    | none => none
    | some (fields, rest) =>
      match hs : skipSpace rest with
      | ',' :: rest => readMembers names fields rest
      | '\x7d' :: rest => some (fields, rest)
      | _ => none
termination_by s.length
decreasing_by
  have := length_lt_of_readKey hk
  have := length_le_of_readMember hm
  have := length_lt_of_skipSpace_cons hs
  omega

/-- Reads texts in the order of the names up to the bracket that closes the array; there is at
least one. -/
def readElements : List String → List Char → Option (Fields × List Char)
  | [], _ => none
  | name :: names, s =>
    match readQuoted s with
    | none => none
    | some (value, rest) =>
      match skipSpace rest with
      | ',' :: rest => (readElements names rest).map fun (fields, rest) =>
        ((name, value) :: fields, rest)
      | ']' :: rest => some ([(name, value)], rest)
      | _ => none

def readBracketed (names : List String) (s : List Char) : Option (Fields × List Char) :=
  match skipSpace s with
  | '\x7b' :: rest =>
    match skipSpace rest with
    | '\x7d' :: rest => some ([], rest)
    | rest => readMembers names [] rest
  | '[' :: rest =>
    match skipSpace rest with
    | ']' :: rest => some ([], rest)
    | rest => readElements names rest
  | _ => none

def readRecord (names : List String) (s : String) : Option Fields :=
  match readBracketed names s.toList with
  | some (fields, rest) => if (skipSpace rest).isEmpty then some fields else none
  | none => none

end Json
end Agenda
