import Agenda.Session.Token
import Agenda.Text.Blank

/-!
# Session cookies

A cookie header is a list of pairs with semicolons between them. The token is the value of the
first pair with the name `token`; a part without an equals sign is no pair.
-/

namespace Agenda

open Text

namespace Cookie

/-- The name and the value of a pair, without the blanks around it. -/
def pair? (part : List Char) : Option (List Char × List Char) :=
  Token.splitAt? '=' (trimmed part)

def pairs (header : String) : List (List Char × List Char) :=
  (header.toList.splitOn ';').filterMap pair?

def name : String := "token"

def token? (header : String) : Option String :=
  ((pairs header).find? fun p => p.1 == name.toList).map fun p => String.ofList p.2

end Cookie

end Agenda
