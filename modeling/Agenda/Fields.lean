/-!
# Named texts

The texts that a request gives, each under its name. A name occurs at most once, and a text that
is not given counts as empty where one is needed.
-/

namespace Agenda

/-- Texts under their names. -/
abbrev Fields := List (String × String)

def textOf? (fields : Fields) (name : String) : Option String := fields.lookup name

def textOf (fields : Fields) (name : String) : String := (textOf? fields name).getD ""

def isGiven (fields : Fields) (name : String) : Bool := (textOf? fields name).isSome

end Agenda
