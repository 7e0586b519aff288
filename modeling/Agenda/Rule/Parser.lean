import Agenda.Rule.Basic
import Agenda.Text.Blank
import Agenda.Text.Numeral

/-!
# Reading a rule

A written rule is cut into words at white space: a letter and its parameters. A list is cut at its
commas. The first problem from left to right is the error, except that a list of blank elements
only is an empty list, and that a wrong number of parameters is found before any is read.
-/

namespace Agenda

open Text

/-- The letter that begins a written rule. -/
inductive RuleLetter
  | y
  | d
  | w
  | m
deriving DecidableEq, Repr

namespace RuleLetter

def text : RuleLetter → String
  | y => "y"
  | d => "d"
  | w => "w"
  | m => "m"

/-- What follows the letter, as an error names it. -/
def expected : RuleLetter → String
  | y => "no arguments"
  | d => "a day count"
  | w => "a weekday list"
  | m => "a day list and an optional month list"

def ofChars? : List Char → Option RuleLetter
  | ['y'] => some y
  | ['d'] => some d
  | ['w'] => some w
  | ['m'] => some m
  | _ => none

end RuleLetter

/-- Why a text is not a rule. -/
inductive RuleError
  | emptyRule
  | unknownLetter (word : String)
  | wrongArity (letter : RuleLetter) (found : Nat)
  | outOfRange (parameter : Parameter) (value : Int)
  | emptyList (parameter : Parameter)
  | malformedNumber (parameter : Parameter) (raw : String)
deriving DecidableEq, Repr

def RuleError.message : RuleError → String
  | emptyRule => "empty repeat rule"
  | unknownLetter word => "unknown repeat rule '" ++ word ++ "' (expected y, d, w or m)"
  | wrongArity letter found =>
    "bad repeat rule: '" ++ letter.text ++ "' expects " ++ letter.expected ++ ", got " ++
      toString found ++ " argument(s)"
  | outOfRange parameter value =>
    "bad repeat rule: " ++ parameter.name ++ " " ++ toString value ++ " is out of range (" ++
      parameter.allowed ++ ")"
  | emptyList parameter => "bad repeat rule: empty " ++ parameter.name ++ " list"
  | malformedNumber parameter raw =>
    "bad repeat rule: " ++ parameter.name ++ " '" ++ raw ++ "' is not an integer"

/-- Reads a parameter; a numeral beyond 64 bits counts as the end of their range. -/
def Parameter.read (parameter : Parameter) (raw : List Char) : Except RuleError Int :=
  match readInt64 raw with
  | .value n => .ok n
  | .above => .error (.outOfRange parameter int64Max)
  | .below => .error (.outOfRange parameter int64Min)
  | .malformed => .error (.malformedNumber parameter (String.ofList raw))

namespace Vocabulary

variable {n : Nat}

def readMember (v : Vocabulary n) (raw : List Char) : Except RuleError (Fin n) :=
  match v.parameter.read raw with
  | .error e => .error e
  | .ok value =>
    match v.index? value with
    | none => .error (.outOfRange v.parameter value)
    | some i => .ok i

def readMembers (v : Vocabulary n) : List (List Char) → Except RuleError (List (Fin n))
  | [] => .ok []
  | raw :: rest =>
    match v.readMember raw with
    | .error e => .error e
    | .ok i =>
      match v.readMembers rest with
      | .error e => .error e
      | .ok members => .ok (i :: members)

def readList (v : Vocabulary n) (raw : List Char) : Except RuleError (Selection n) :=
  let elements := raw.splitOn ','
  if elements.all List.isEmpty then .error (.emptyList v.parameter)
  else
    match v.readMembers elements with
    | .error e => .error e
    | .ok members =>
      match Selection.ofList? members with
      | none => .error (.emptyList v.parameter)
      | some s => .ok s

end Vocabulary

def Period.read (raw : List Char) : Except RuleError Period :=
  match Parameter.dayCount.read raw with
  | .error e => .error e
  | .ok n =>
    match ofInt? n with
    | none => .error (.outOfRange .dayCount n)
    | some period => .ok period

namespace Rule

/-- Reads the parameters that follow the letter of a rule. -/
def ofWords : RuleLetter → List (List Char) → Except RuleError Rule
  | .y, [] => .ok yearly
  | .d, [count] => (Period.read count).map everyDays
  | .w, [days] => (weekdays.readList days).map weekly
  | .m, [days] => (monthDays.readList days).map fun s => monthly s none
  | .m, [days, selected] =>
    match monthDays.readList days with
    | .error e => .error e
    | .ok s => (months.readList selected).map fun t => monthly s (some t)
  | letter, args => .error (.wrongArity letter args.length)

def parse (expr : String) : Except RuleError Rule :=
  match words expr.toList with
  | [] => .error .emptyRule
  | word :: args =>
    match RuleLetter.ofChars? word with
    | none => .error (.unknownLetter (String.ofList word))
    | some letter => ofWords letter args

end Rule

end Agenda
