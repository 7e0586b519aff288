import Agenda.Calendar.Text
import Agenda.Cli.Help

/-!
# Commands and their arguments

The arguments name a command, and for `next` a list of options in any order. A long option has its
value behind an equals sign or in the next argument, a short one in the next argument. The anchor
and the rule are given once each; of several reference days the last one counts.
-/

namespace Agenda
namespace Cli

inductive Flag
  | date
  | repeatRule
  | now
  | verbose
  | color
  | noColor
  | help
deriving DecidableEq, Repr

namespace Flag

def ofText? (s : String) : Option Flag :=
  if s = "--date" ∨ s = "-d" then some date
  else if s = "--repeat" ∨ s = "-r" then some repeatRule
  else if s = "--now" ∨ s = "-n" then some now
  else if s = "--verbose" ∨ s = "-v" then some verbose
  else if s = "--color" then some color
  else if s = "--no-color" then some noColor
  else if s = "--help" ∨ s = "-h" then some help
  else none

/-- The long form of an option, as an error names it. -/
def name : Flag → String
  | date => "--date"
  | repeatRule => "--repeat"
  | now => "--now"
  | verbose => "--verbose"
  | color => "--color"
  | noColor => "--no-color"
  | help => "--help"

end Flag

/-- Why the arguments are no command. -/
inductive ArgumentError
  | noCommand
  | unknownCommand (word : String)
  | unexpectedArgument (word : String)
  | missingValue (flag : Flag)
  | givenTwice (flag : Flag)
  | badReference (raw : String)
  | unknownOption (arg : String)
  | required (flag : Flag)
deriving DecidableEq, Repr

def ArgumentError.message : ArgumentError → String
  | noCommand => "error: no command given\n\n" ++ helpText
  | unknownCommand word => "error: unknown command '" ++ word ++ "'\n\n" ++ helpText
  | unexpectedArgument word => "error: unexpected argument '" ++ word ++ "' for serve"
  | missingValue flag => "error: " ++ flag.name ++ " expects a value"
  | givenTwice flag => "error: " ++ flag.name ++ " provided multiple times"
  | badReference raw => "error: invalid --now '" ++ raw ++ "' (expected YYYYMMDD)"
  | unknownOption arg => "error: unknown option '" ++ arg ++ "'"
  | required flag => "error: " ++ flag.name ++ " is required\n\n" ++ helpText

structure Options where
  date : Option String
  repeatRule : Option String
  now : Option Day
  verbose : Bool
  color : Bool

inductive Command
  | help
  | version
  | next (date rule : String) (now : Option Day) (verbose color : Bool)
  | serve

/-- Cuts the value off a long option. -/
def cut (arg : String) : String × Option String :=
  match arg.toList with
  | '-' :: '-' :: _ =>
    match arg.toList.dropWhile (· ≠ '=') with
    | [] => (arg, none)
    | _ :: value =>
      (String.ofList (arg.toList.takeWhile (· ≠ '=')), some (String.ofList value))
  | _ => (arg, none)

namespace Options

/-- Takes the value of an option that needs one. -/
def assign (o : Options) (flag : Flag) (value : String) : Except ArgumentError Options :=
  match flag with
  | .date =>
    if o.date.isSome then .error (.givenTwice .date) else .ok { o with date := some value }
  | .repeatRule =>
    if o.repeatRule.isSome then .error (.givenTwice .repeatRule)
    else .ok { o with repeatRule := some value }
  | .now =>
    match Day.ofText? value with
    | none => .error (.badReference value)
    | some day => .ok { o with now := some day }
  | _ => .ok o

/-- The command that the options make, when the anchor and the rule are given. -/
def toCommand (o : Options) : Except ArgumentError Command :=
  match o.date, o.repeatRule with
  | none, _ => .error (.required .date)
  | some _, none => .error (.required .repeatRule)
  | some date, some rule => .ok (.next date rule o.now o.verbose o.color)

/-- Reads the options from left to right up to the first problem or the request for help. -/
def read (o : Options) : List String → Except ArgumentError Command
  | [] => o.toCommand
  | arg :: rest =>
    match Flag.ofText? (cut arg).1 with
    | none => .error (.unknownOption arg)
    | some .help => .ok .help
    | some .verbose => read { o with verbose := true } rest
    | some .color => read { o with color := true } rest
    | some .noColor => read { o with color := false } rest
    | some flag =>
      match (cut arg).2 with
      | some value =>
        match o.assign flag value with
        | .error e => .error e
        | .ok o => read o rest
      | none =>
        match rest with
        | [] => .error (.missingValue flag)
        | value :: rest =>
          match o.assign flag value with
          | .error e => .error e
          | .ok o => read o rest

end Options

namespace Command

/-- Reads the arguments; `color` says whether reports have colours by default. -/
def parse (color : Bool) : List String → Except ArgumentError Command
  | [] => .error .noCommand
  | word :: args =>
    if word = "-h" ∨ word = "--help" then .ok help
    else if word = "-V" ∨ word = "--version" then .ok version
    else if word = "serve" then
      match args with
      | [] => .ok serve
      | extra :: _ => .error (.unexpectedArgument extra)
    else if word = "next" then Options.read ⟨none, none, none, false, color⟩ args
    else .error (.unknownCommand word)

end Command

end Cli
end Agenda
