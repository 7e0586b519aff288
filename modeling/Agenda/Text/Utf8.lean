/-!
# UTF-8

The bytes of a text, and the text of any bytes: where the bytes are no encoding of a character,
the longest start of one, or else a single byte, becomes U+FFFD.
-/

namespace Agenda
namespace Text

def utf8Bytes (s : List Char) : List UInt8 := s.flatMap String.utf8EncodeChar

def replacement : Char := '\uFFFD'

def isContinuation (b : UInt8) : Bool := 0x80 ≤ b && b ≤ 0xBF

/-- The second bytes that may follow the first byte of an encoding of three or four bytes. -/
def isSecond (first second : UInt8) : Bool :=
  if first = 0xE0 then 0xA0 ≤ second && second ≤ 0xBF
  else if first = 0xED then 0x80 ≤ second && second ≤ 0x9F
  else if first = 0xF0 then 0x90 ≤ second && second ≤ 0xBF
  else if first = 0xF4 then 0x80 ≤ second && second ≤ 0x8F
  else isContinuation second

def payload (b : UInt8) : Nat := b.toNat % 64

/-- The bits that the first byte of an encoding carries, and how many bytes follow the second. -/
def leading? (first : UInt8) : Option (Nat × Nat) :=
  if 0xC2 ≤ first && first ≤ 0xDF then some (first.toNat % 32, 0)
  else if 0xE0 ≤ first && first ≤ 0xEF then some (first.toNat % 16, 1)
  else if 0xF0 ≤ first && first ≤ 0xF4 then some (first.toNat % 8, 2)
  else none

/-- Reads the last bytes of an encoding, when `code` holds the bits before them. -/
def readContinuations (code : Nat) : Nat → List UInt8 → Char × List UInt8
  | 0, rest => (Char.ofNat code, rest)
  | _ + 1, [] => (replacement, [])
  | count + 1, b :: rest =>
    if isContinuation b then readContinuations (code * 64 + payload b) count rest
    else (replacement, b :: rest)

/-- Reads one character from behind the first byte of its encoding. -/
def readChar (first : UInt8) (rest : List UInt8) : Char × List UInt8 :=
  if first < 0x80 then (Char.ofNat first.toNat, rest)
  else
    match leading? first, rest with
    | none, rest => (replacement, rest)
    | some _, [] => (replacement, [])
    | some (code, count), second :: rest =>
      if isSecond first second then readContinuations (code * 64 + payload second) count rest
      else (replacement, second :: rest)

theorem length_readContinuations_le (code count : Nat) (rest : List UInt8) :
    (readContinuations code count rest).2.length ≤ rest.length := by
  induction count generalizing code rest with
  | zero => exact Nat.le_refl _
  | succ count ih =>
    cases rest with
    | nil => exact Nat.le_refl _
    | cons b rest =>
      rw [readContinuations]
      split
      · exact Nat.le_succ_of_le (ih _ _)
      · exact Nat.le_refl _

theorem length_readChar_le (first : UInt8) (rest : List UInt8) :
    (readChar first rest).2.length ≤ rest.length := by
  unfold readChar
  split
  · exact Nat.le_refl _
  · split
    · exact Nat.le_refl _
    · exact Nat.le_refl _
    · split
      · exact Nat.le_succ_of_le (length_readContinuations_le _ _ _)
      · exact Nat.le_refl _

/-- Decodes bytes; `read` holds the characters read so far, last first. -/
def decodeFrom (read : List Char) (bytes : List UInt8) : List Char :=
  match bytes with
  | [] => read.reverse
  | first :: rest =>
    decodeFrom ((readChar first rest).1 :: read) (readChar first rest).2
termination_by bytes.length
decreasing_by exact Nat.lt_succ_of_le (length_readChar_le first rest)

def decodeUtf8 (bytes : List UInt8) : List Char := decodeFrom [] bytes

end Text
end Agenda
