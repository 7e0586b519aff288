import Agenda.Text.Hex

/-!
# Reading JSON tokens

Readers take the characters that are left and answer what they have read and what is left behind
it. A text that is kept must denote characters, so a surrogate escape must be one of a pair. A
text that is skipped only has to be well formed. Each reader leaves less than it was given.
-/

namespace Agenda
namespace Json

open Text

def isSpace (c : Char) : Bool := c == ' ' || c == '\n' || c == '\r' || c == '\t'

def skipSpace (s : List Char) : List Char := s.dropWhile isSpace

theorem length_skipSpace_le (s : List Char) : (skipSpace s).length ≤ s.length :=
  (List.dropWhile_sublist _).length_le

def escapedChar? : Char → Option Char
  | '"' => some '"'
  | '\\' => some '\\'
  | '/' => some '/'
  | 'b' => some '\x08'
  | 'f' => some '\x0C'
  | 'n' => some '\n'
  | 'r' => some '\r'
  | 't' => some '\t'
  | _ => none

def isHighSurrogate (n : Nat) : Bool := 0xD800 ≤ n && n ≤ 0xDBFF

def isLowSurrogate (n : Nat) : Bool := 0xDC00 ≤ n && n ≤ 0xDFFF

def surrogatePair (high low : Nat) : Char :=
  Char.ofNat (0x10000 + (high - 0xD800) * 0x400 + (low - 0xDC00))

/-- Reads a text from behind its opening quote; `read` holds what is read, last first. -/
def readText (read : List Char) : List Char → Option (String × List Char)
  | [] => none
  | '"' :: rest => some (String.ofList read.reverse, rest)
  | '\\' :: 'u' :: a :: b :: c :: d :: rest =>
    match hexQuad? a b c d with
    | none => none
    | some n =>
      if isLowSurrogate n then none
      else if isHighSurrogate n then
        match rest with
        | '\\' :: 'u' :: a :: b :: c :: d :: rest =>
          match hexQuad? a b c d with
          | none => none
          | some low =>
            if isLowSurrogate low then readText (surrogatePair n low :: read) rest else none
        | _ => none
      else readText (Char.ofNat n :: read) rest
  | '\\' :: c :: rest =>
    match escapedChar? c with
    | none => none
    | some c => readText (c :: read) rest
  | c :: rest => if c.toNat < 0x20 then none else readText (c :: read) rest

def skipText : List Char → Option (List Char)
  | [] => none
  | '"' :: rest => some rest
  | '\\' :: 'u' :: a :: b :: c :: d :: rest =>
    match hexQuad? a b c d with
    | none => none
    | some _ => skipText rest
  | '\\' :: c :: rest =>
    match escapedChar? c with
    | none => none
    | some _ => skipText rest
  | c :: rest => if c.toNat < 0x20 then none else skipText rest

theorem length_lt_of_readText {read s rest : List Char} {t : String}
    (h : readText read s = some (t, rest)) : rest.length < s.length := by
  fun_induction readText read s generalizing rest
  all_goals try simp only [reduceCtorEq, Option.some.injEq, Prod.mk.injEq] at h
  case case2 => simp [← h.2]
  all_goals
    rename_i ih
    have := ih h
    simp only [List.length_cons]
    omega

theorem length_lt_of_skipText {s rest : List Char} (h : skipText s = some rest) :
    rest.length < s.length := by
  fun_induction skipText s generalizing rest
  all_goals try simp only [reduceCtorEq, Option.some.injEq] at h
  case case2 => simp [← h]
  all_goals
    rename_i ih
    have := ih h
    simp only [List.length_cons]
    omega

def skipDigits : List Char → Option (List Char)
  | [] => none
  | c :: rest => if c.isDigit then some (rest.dropWhile Char.isDigit) else none

theorem length_lt_of_skipDigits {s rest : List Char} (h : skipDigits s = some rest) :
    rest.length < s.length := by
  cases s with
  | nil => cases h
  | cons c s =>
    by_cases hc : c.isDigit
    · rw [skipDigits, if_pos hc, Option.some.injEq] at h
      rw [← h]
      exact Nat.lt_succ_of_le (List.dropWhile_sublist _).length_le
    · rw [skipDigits, if_neg hc] at h
      cases h

def skipExponent : List Char → Option (List Char)
  | 'e' :: rest | 'E' :: rest =>
    match rest with
    | '+' :: rest | '-' :: rest => skipDigits rest
    | rest => skipDigits rest
  | rest => some rest

theorem length_le_of_skipExponent {s rest : List Char} (h : skipExponent s = some rest) :
    rest.length ≤ s.length := by
  unfold skipExponent at h
  split at h
  · split at h <;> exact Nat.le_of_lt (by have := length_lt_of_skipDigits h; simp_all; omega)
  · split at h <;> exact Nat.le_of_lt (by have := length_lt_of_skipDigits h; simp_all; omega)
  · cases h
    exact Nat.le_refl _

def skipFraction : List Char → Option (List Char)
  | '.' :: rest => (skipDigits rest).bind skipExponent
  | rest => skipExponent rest

theorem length_le_of_skipFraction {s rest : List Char} (h : skipFraction s = some rest) :
    rest.length ≤ s.length := by
  unfold skipFraction at h
  split at h
  · obtain ⟨t, ht, hrest⟩ := Option.bind_eq_some_iff.mp h
    have := length_lt_of_skipDigits ht
    have := length_le_of_skipExponent hrest
    simp only [List.length_cons]
    omega
  · exact length_le_of_skipExponent h

/-- Skips a number without its sign; a leading zero is its only digit. -/
def skipMagnitude : List Char → Option (List Char)
  | '0' :: rest =>
    match rest with
    | [] => some []
    | c :: _ => if c.isDigit then none else skipFraction rest
  | rest => (skipDigits rest).bind skipFraction

theorem length_lt_of_skipMagnitude {s rest : List Char} (h : skipMagnitude s = some rest) :
    rest.length < s.length := by
  unfold skipMagnitude at h
  split at h
  · split at h
    · cases h
      simp
    · split at h
      · cases h
      · exact Nat.lt_succ_of_le (length_le_of_skipFraction h)
  · obtain ⟨t, ht, hrest⟩ := Option.bind_eq_some_iff.mp h
    exact Nat.lt_of_le_of_lt (length_le_of_skipFraction hrest) (length_lt_of_skipDigits ht)

/-- Skips a value that holds no other values. -/
def skipAtom : List Char → Option (List Char)
  | 'n' :: 'u' :: 'l' :: 'l' :: rest => some rest
  | 't' :: 'r' :: 'u' :: 'e' :: rest => some rest
  | 'f' :: 'a' :: 'l' :: 's' :: 'e' :: rest => some rest
  | '"' :: rest => skipText rest
  | '-' :: rest => skipMagnitude rest
  | rest => skipMagnitude rest

theorem length_lt_of_skipAtom {s rest : List Char} (h : skipAtom s = some rest) :
    rest.length < s.length := by
  unfold skipAtom at h
  split at h
  · cases h
    simp only [List.length_cons]
    omega
  · cases h
    simp only [List.length_cons]
    omega
  · cases h
    simp only [List.length_cons]
    omega
  · exact Nat.lt_succ_of_lt (length_lt_of_skipText h)
  · exact Nat.lt_succ_of_lt (length_lt_of_skipMagnitude h)
  · exact length_lt_of_skipMagnitude h

end Json
end Agenda
