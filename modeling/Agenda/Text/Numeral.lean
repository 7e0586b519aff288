/-!
# Decimal numerals

An integer is written as an optional sign and at least one ASCII digit; leading zeros are allowed.
A range `lower ≤ n ≤ upper` is given when a numeral is read, and a minus sign is only a sign when
the range has negative members. Reading goes from left to right and stops at the first problem, so
a stray character behind digits that already exceed the range is not looked at.
-/

namespace Agenda
namespace Text

/-- What a text says when it is read as an integer of a range. -/
inductive Numeral
  | value (n : Int)
  | malformed
  | above
  | below
deriving DecidableEq, Repr

namespace Numeral

def value? : Numeral → Option Int
  | .value n => some n
  | _ => none

end Numeral

def digitValue (c : Char) : Nat := c.toNat - '0'.toNat

/-- The outcome of reading the digits of a magnitude that must not exceed a limit. -/
inductive Magnitude
  | value (n : Nat)
  | malformed
  | beyond
deriving DecidableEq, Repr

/-- Reads digits behind the number `n`; a character is tested before its value is added. -/
def readMagnitude (limit n : Nat) : List Char → Magnitude
  | [] => .value n
  | c :: rest =>
    if c.isDigit then
      if 10 * n + digitValue c ≤ limit then readMagnitude limit (10 * n + digitValue c) rest
      else .beyond
    else .malformed

def readPositive (upper : Int) : List Char → Numeral
  | [] => .malformed
  | s =>
    match readMagnitude upper.toNat 0 s with
    | .value n => .value n
    | .malformed => .malformed
    | .beyond => .above

def readNegative (lower : Int) : List Char → Numeral
  | [] => .malformed
  | s =>
    match readMagnitude (-lower).toNat 0 s with
    | .value n => .value (-n)
    | .malformed => .malformed
    | .beyond => .below

/-- Reads an integer between `lower` and `upper`, where `lower ≤ 0 ≤ upper`. -/
def readNumeral (lower upper : Int) : List Char → Numeral
  | '+' :: digits => readPositive upper digits
  | '-' :: digits => if lower < 0 then readNegative lower digits else .malformed
  | digits => readPositive upper digits

def int64Min : Int := -9223372036854775808

def int64Max : Int := 9223372036854775807

def word64Max : Nat := 18446744073709551615

def readInt64 (s : List Char) : Numeral := readNumeral int64Min int64Max s

def readNat? (upper : Nat) (s : List Char) : Option Nat :=
  (readNumeral 0 upper s).value?.map Int.toNat

def digits (n : Nat) : List Char := Nat.toDigits 10 n

/-- The canonical numeral: a minus sign where it is needed, and no leading zero. -/
def decimal : Int → List Char
  | .ofNat n => digits n
  | .negSucc n => '-' :: digits (n + 1)

/-- The digits of `n`, with zeros in front up to `width` places. -/
def padded (width n : Nat) : List Char :=
  List.replicate (width - (digits n).length) '0' ++ digits n

end Text
end Agenda
