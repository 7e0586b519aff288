import Agenda.Json.Token

/-!
# Skipping JSON values

A value that nobody asks for is walked over. Brackets that are still open are kept in a list, so
values may be nested to any depth.
-/

namespace Agenda
namespace Json

inductive Frame
  | array
  | object
deriving DecidableEq, Repr

/-- What comes next: a value, the first content of an open bracket, or what follows a value. -/
inductive Expecting
  | value
  | content
  | separator
deriving DecidableEq, Repr

/-- The weight by which a step that reads nothing comes closer to the end. -/
def Expecting.weight : Expecting → Nat
  | value => 0
  | content => 1
  | separator => 0

def skipKey (s : List Char) : Option (List Char) :=
  match skipSpace s with
  | '"' :: rest =>
    match skipText rest with
    | none => none
    | some rest =>
      match skipSpace rest with
      | ':' :: rest => some rest
      | _ => none
  | _ => none

theorem length_lt_of_skipSpace_cons {s rest : List Char} {c : Char}
    (h : skipSpace s = c :: rest) : rest.length < s.length := by
  have := length_skipSpace_le s
  rw [h] at this
  exact this

theorem length_lt_of_skipKey {s rest : List Char} (h : skipKey s = some rest) :
    rest.length < s.length := by
  unfold skipKey at h
  split at h
  · rename_i hs
    split at h
    · cases h
    · rename_i ht
      split at h
      · rename_i hr
        cases h
        have := length_lt_of_skipSpace_cons hs
        have := length_lt_of_skipText ht
        have := length_lt_of_skipSpace_cons hr
        omega
      · cases h
  · cases h

set_option linter.unusedVariables false in
/-- Skips what is expected, and all that closes the open brackets. -/
def skipFrom (frames : List Frame) (expecting : Expecting) (s : List Char) :
    Option (List Char) :=
  match expecting, frames with
  | .value, frames =>
    match h : skipSpace s with
    | '[' :: rest => skipFrom (.array :: frames) .content rest
    | '\x7b' :: rest => skipFrom (.object :: frames) .content rest
    | start =>
      match ha : skipAtom start with
      | none => none
      | some rest => skipFrom frames .separator rest
  | .content, [] => none
  | .content, .array :: outer =>
    match h : skipSpace s with
    | ']' :: rest => skipFrom outer .separator rest
    | start => skipFrom (.array :: outer) .value start
  | .content, .object :: outer =>
    match h : skipSpace s with
    | '\x7d' :: rest => skipFrom outer .separator rest
    | start =>
      match hk : skipKey start with
      | none => none
      | some rest => skipFrom (.object :: outer) .value rest
  | .separator, [] => some s
  | .separator, .array :: outer =>
    match h : skipSpace s with
    | ',' :: rest => skipFrom (.array :: outer) .value rest
    | ']' :: rest => skipFrom outer .separator rest
    | _ => none
  | .separator, .object :: outer =>
    match h : skipSpace s with
    | ',' :: rest =>
      match hk : skipKey rest with
      | none => none
      | some rest => skipFrom (.object :: outer) .value rest
    | '\x7d' :: rest => skipFrom outer .separator rest
    | _ => none
termination_by 2 * s.length + expecting.weight
decreasing_by
  all_goals simp only [Expecting.weight]
  · have := length_lt_of_skipSpace_cons h
    omega
  · have := length_lt_of_skipSpace_cons h
    omega
  · have := h ▸ length_skipSpace_le s
    have := length_lt_of_skipAtom ha
    omega
  · have := length_lt_of_skipSpace_cons h
    omega
  · have := h ▸ length_skipSpace_le s
    omega
  · have := length_lt_of_skipSpace_cons h
    omega
  · have := h ▸ length_skipSpace_le s
    have := length_lt_of_skipKey hk
    omega
  · have := length_lt_of_skipSpace_cons h
    omega
  · have := length_lt_of_skipSpace_cons h
    omega
  · have := length_lt_of_skipSpace_cons h
    have := length_lt_of_skipKey hk
    omega
  · have := length_lt_of_skipSpace_cons h
    omega

theorem length_le_of_skipFrom {frames : List Frame} {expecting : Expecting} {s rest : List Char}
    (h : skipFrom frames expecting s = some rest) : rest.length ≤ s.length := by
  fun_induction skipFrom frames expecting s
  all_goals try cases h
  case case11 => exact Nat.le_refl _
  all_goals
    rename_i ih
    have hrest := ih h
  case case4 =>
    have := length_lt_of_skipAtom ‹_›
    exact Nat.le_trans hrest (Nat.le_trans (Nat.le_of_lt this) (length_skipSpace_le _))
  case case7 => exact Nat.le_trans hrest (length_skipSpace_le _)
  case case10 =>
    have := length_lt_of_skipKey ‹_›
    exact Nat.le_trans hrest (Nat.le_trans (Nat.le_of_lt this) (length_skipSpace_le _))
  case case16 =>
    have := length_lt_of_skipKey ‹_›
    have := length_lt_of_skipSpace_cons ‹_›
    omega
  all_goals
    have := length_lt_of_skipSpace_cons ‹_›
    omega

def skipValue (s : List Char) : Option (List Char) := skipFrom [] .value s

end Json
end Agenda
