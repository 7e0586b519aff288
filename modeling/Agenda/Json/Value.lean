import Agenda.Text.Hex
import Agenda.Text.Numeral

/-!
# Writing JSON

The values that are written, and their one written form: no space between tokens, the members of
an object in the given order, and in a text only quotes, backslashes and control characters
escaped.
-/

namespace Agenda
namespace Json

open Text

inductive Value
  | text (s : String)
  | number (n : Int)
  | array (elements : List Value)
  | object (members : List (String × Value))

/-- The form of a character inside a quoted text. -/
def escaped (c : Char) : List Char :=
  if c = '"' then ['\\', '"']
  else if c = '\\' then ['\\', '\\']
  else if c = '\x08' then ['\\', 'b']
  else if c = '\t' then ['\\', 't']
  else if c = '\n' then ['\\', 'n']
  else if c = '\x0C' then ['\\', 'f']
  else if c = '\r' then ['\\', 'r']
  else if c.toNat < 0x20 then ['\\', 'u', '0', '0', hexDigit (c.toNat / 16), hexDigit c.toNat]
  else [c]

def quoted (s : String) : List Char := '"' :: s.toList.flatMap escaped ++ ['"']

namespace Value

mutual

def chars : Value → List Char
  | text s => quoted s
  | number n => decimal n
  | array elements => '[' :: elementChars elements ++ [']']
  | object members => '\x7b' :: memberChars members ++ ['\x7d']

def elementChars : List Value → List Char
  | [] => []
  | [v] => chars v
  | v :: rest => chars v ++ ',' :: elementChars rest

def memberChars : List (String × Value) → List Char
  | [] => []
  | [(key, v)] => quoted key ++ ':' :: chars v
  | (key, v) :: rest => quoted key ++ ':' :: chars v ++ ',' :: memberChars rest

end

def write (v : Value) : String := String.ofList v.chars

end Value

end Json
end Agenda
