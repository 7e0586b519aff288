/-!
# Wildcard patterns

In a pattern a percent sign stands for any run of characters and an underscore for one character;
every other character stands for itself, where ASCII letters are taken in either case and the two
noncharacters of the basic plane are read as U+FFFD. A pattern and a text end at the first U+0000.
Where a run has been tried at every place in vain, no other choice for a run in front of it can
help, so the search as a whole is given up there.
-/

namespace Agenda
namespace Like

inductive Item
  | anyRun
  | anyOne
  | char (c : Char)
deriving DecidableEq, Repr

def Item.ofChar (c : Char) : Item :=
  if c = '%' then .anyRun else if c = '_' then .anyOne else .char c

/-- What becomes of matching a text; `exhausted` says that no suffix of the text matches. -/
inductive Outcome
  | matched
  | mismatched
  | exhausted
deriving DecidableEq, Repr

/-- What a character is compared by: ASCII letters in lower case, U+FFFD for U+FFFE and U+FFFF, and
other characters as they are. -/
def fold (c : Char) : Char :=
  if 'A' ≤ c ∧ c ≤ 'Z' then Char.ofNat (c.toNat + 32)
  else if c = '\uFFFE' ∨ c = '\uFFFF' then '\uFFFD'
  else c

/-- Tries a rest of a pattern on the suffixes of a text, the longest first. -/
def search (rest : List Char → Outcome) : List Char → Outcome
  | [] => if rest [] = .matched then .matched else .exhausted
  | c :: text =>
    match rest (c :: text) with
    | .matched => .matched
    | .exhausted => .exhausted
    | .mismatched => search rest text

def outcome : List Item → List Char → Outcome
  | [], [] => .matched
  | [], _ :: _ => .mismatched
  | .anyRun :: items, text => search (outcome items) text
  | .anyOne :: items, _ :: text => outcome items text
  | .char c :: items, d :: text =>
    if fold c = fold d then outcome items text else .mismatched
  | .anyOne :: _, [] => .mismatched
  | .char _ :: _, [] => .mismatched

/-- The part before the first U+0000. -/
def visible (s : List Char) : List Char := s.takeWhile (· ≠ '\x00')

def matchesPattern (pattern text : List Char) : Bool :=
  outcome ((visible pattern).map Item.ofChar) (visible text) == .matched

end Like
end Agenda
