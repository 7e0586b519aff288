import Agenda.Fields
import Agenda.Text.Hex
import Agenda.Text.Utf8

/-!
# Form-encoded queries

A query is cut into pairs at its ampersands, and a pair into a name and a value at its first
equals sign. In both a plus sign is a space, and a percent sign with two hexadecimal digits is a
byte; a percent sign without them stands for itself. A name that is asked for may occur once.
-/

namespace Agenda
namespace Form

open Text

def plus : UInt8 := 0x2B

def percent : UInt8 := 0x25

def escapedByte? (a b : UInt8) : Option UInt8 :=
  match hexValue? (Char.ofNat a.toNat), hexValue? (Char.ofNat b.toNat) with
  | some a, some b => some (UInt8.ofNat (a * 16 + b))
  | _, _ => none

/-- Replaces what stands for spaces and bytes. -/
def unescape : List UInt8 → List UInt8
  | [] => []
  | [c] => [if c = plus then 0x20 else c]
  | [c, a] => [if c = plus then 0x20 else c, if a = plus then 0x20 else a]
  | c :: a :: b :: rest =>
    if c = plus then 0x20 :: unescape (a :: b :: rest)
    else if c = percent then
      match escapedByte? a b with
      | some byte => byte :: unescape rest
      | none => c :: unescape (a :: b :: rest)
    else c :: unescape (a :: b :: rest)

def decode (s : List Char) : String := String.ofList (decodeUtf8 (unescape (utf8Bytes s)))

/-- The name and the value of a pair; without an equals sign the value is empty. -/
def pair (part : List Char) : String × String :=
  (decode (part.takeWhile (· ≠ '=')), decode ((part.dropWhile (· ≠ '=')).drop 1))

def pairs (query : List Char) : List (String × String) :=
  ((query.splitOn '&').filter fun part => !part.isEmpty).map pair

/-- Collects the values of the names that are asked for; a second value is named as the error. -/
def collect (names : List String) (fields : Fields) : List (String × String) → Except String Fields
  | [] => .ok fields
  | (name, value) :: rest =>
    if name ∈ names then
      if isGiven fields name then .error name else collect names ((name, value) :: fields) rest
    else collect names fields rest

def read (names : List String) (query : List Char) : Except String Fields :=
  collect names [] (pairs query)

end Form
end Agenda
