import Agenda.Json.Token
import Agenda.Json.Value
import Agenda.Proofs.Text.Hex

/-!
# Texts between quotes

Between quotes a character is written as it is, as a short escape, as the four digits of its number,
or as the digits of two surrogates. So a text has many spellings. All of them are read as the text,
and the one that is written is one of them.
-/

namespace Agenda
namespace Json

open Text

/-- The characters are the four hexadecimal digits of the number. -/
def IsQuad (a b c d : Char) (n : Nat) : Prop :=
  ∃ w x y z, IsHexDigit a w ∧ IsHexDigit b x ∧ IsHexDigit c y ∧ IsHexDigit d z ∧
    n = ((w * 16 + x) * 16 + y) * 16 + z

def shortEscapes : List (Char × Char) :=
  [('"', '"'), ('\\', '\\'), ('/', '/'), ('b', '\x08'), ('f', '\x0C'), ('n', '\n'), ('r', '\r'),
    ('t', '\t')]

/-- The characters between the quotes spell the text. -/
inductive Spells : List Char → List Char → Prop
  | nil : Spells [] []
  | plain {x : Char} {s t : List Char} (hquote : x ≠ '"') (hbackslash : x ≠ '\\')
      (hcontrol : 0x20 ≤ x.toNat) (hs : Spells s t) : Spells (x :: s) (x :: t)
  | short {letter x : Char} {s t : List Char} (hletter : (letter, x) ∈ shortEscapes)
      (hs : Spells s t) : Spells ('\\' :: letter :: s) (x :: t)
  | quad {a b c d x : Char} {s t : List Char} (hx : IsQuad a b c d x.toNat) (hs : Spells s t) :
      Spells ('\\' :: 'u' :: a :: b :: c :: d :: s) (x :: t)
  | pair {a b c d a' b' c' d' x : Char} {high low : Nat} {s t : List Char} (hhigh : high < 0x400)
      (hlow : low < 0x400) (hx : x.toNat = 0x10000 + high * 0x400 + low)
      (hfirst : IsQuad a b c d (0xD800 + high)) (hsecond : IsQuad a' b' c' d' (0xDC00 + low))
      (hs : Spells s t) :
      Spells ('\\' :: 'u' :: a :: b :: c :: d :: '\\' :: 'u' :: a' :: b' :: c' :: d' :: s) (x :: t)

variable {s t rest : List Char} {n : Nat}

theorem IsQuad.hexQuad?_eq {a b c d : Char} (h : IsQuad a b c d n) :
    hexQuad? a b c d = some n := by
  obtain ⟨w, x, y, z, ha, hb, hc, hd, rfl⟩ := h
  simp only [hexQuad?, hexValue?_eq_some_iff.mpr ha, hexValue?_eq_some_iff.mpr hb,
    hexValue?_eq_some_iff.mpr hc, hexValue?_eq_some_iff.mpr hd]

theorem readText_plain {x : Char} (hquote : x ≠ '"') (hbackslash : x ≠ '\\')
    (hcontrol : 0x20 ≤ x.toNat) (read : List Char) :
    readText read (x :: rest) = readText (x :: read) rest := by
  rw [readText]
  · exact if_neg (Nat.not_lt.mpr hcontrol)
  all_goals simp_all

theorem readText_short {letter x : Char} (h : (letter, x) ∈ shortEscapes) (read : List Char) :
    readText read ('\\' :: letter :: rest) = readText (x :: read) rest := by
  simp only [shortEscapes, List.mem_cons, Prod.mk.injEq, List.not_mem_nil, or_false] at h
  rcases h with ⟨rfl, rfl⟩ | ⟨rfl, rfl⟩ | ⟨rfl, rfl⟩ | ⟨rfl, rfl⟩ | ⟨rfl, rfl⟩ | ⟨rfl, rfl⟩ |
    ⟨rfl, rfl⟩ | ⟨rfl, rfl⟩ <;> simp [readText, escapedChar?]

theorem readText_quad {a b c d x : Char} (h : IsQuad a b c d x.toNat) (read : List Char) :
    readText read ('\\' :: 'u' :: a :: b :: c :: d :: rest) = readText (x :: read) rest := by
  have hvalid : x.toNat < 0xD800 ∨ 0xDFFF < x.toNat ∧ x.toNat < 0x110000 := x.valid
  have hlow : ¬ isLowSurrogate x.toNat = true := by
    simp only [isLowSurrogate, Bool.and_eq_true, decide_eq_true_eq]
    omega
  have hhigh : ¬ isHighSurrogate x.toNat = true := by
    simp only [isHighSurrogate, Bool.and_eq_true, decide_eq_true_eq]
    omega
  rw [readText]
  simp only [h.hexQuad?_eq, if_neg hlow, if_neg hhigh, Char.ofNat_toNat]

theorem readText_pair {a b c d a' b' c' d' x : Char} {high low : Nat} (hhigh : high < 0x400)
    (hlow : low < 0x400) (hx : x.toNat = 0x10000 + high * 0x400 + low)
    (hfirst : IsQuad a b c d (0xD800 + high)) (hsecond : IsQuad a' b' c' d' (0xDC00 + low))
    (read : List Char) :
    readText read ('\\' :: 'u' :: a :: b :: c :: d :: '\\' :: 'u' :: a' :: b' :: c' :: d' :: rest) =
      readText (x :: read) rest := by
  have hnotLow : ¬ isLowSurrogate (0xD800 + high) = true := by
    simp only [isLowSurrogate, Bool.and_eq_true, decide_eq_true_eq]
    omega
  have hisHigh : isHighSurrogate (0xD800 + high) = true := by
    simp only [isHighSurrogate, Bool.and_eq_true, decide_eq_true_eq]
    omega
  have hisLow : isLowSurrogate (0xDC00 + low) = true := by
    simp only [isLowSurrogate, Bool.and_eq_true, decide_eq_true_eq]
    omega
  have hpair : surrogatePair (0xD800 + high) (0xDC00 + low) = x := by
    rw [surrogatePair, Nat.add_sub_cancel_left, Nat.add_sub_cancel_left, ← hx, Char.ofNat_toNat]
  rw [readText]
  simp only [hfirst.hexQuad?_eq, hsecond.hexQuad?_eq, if_neg hnotLow, if_pos hisHigh, if_pos hisLow,
    hpair]

theorem Spells.readText_eq (h : Spells s t) (read rest : List Char) :
    readText read (s ++ '"' :: rest) = some (String.ofList (read.reverse ++ t), rest) := by
  induction h generalizing read with
  | nil => simp [readText]
  | plain hquote hbackslash hcontrol hs ih =>
    rw [List.cons_append, readText_plain hquote hbackslash hcontrol, ih]
    simp
  | short hletter hs ih =>
    rw [List.cons_append, List.cons_append, readText_short hletter, ih]
    simp
  | quad hx hs ih =>
    simp only [List.cons_append]
    rw [readText_quad hx, ih]
    simp
  | pair hhigh hlow hx hfirst hsecond hs ih =>
    simp only [List.cons_append]
    rw [readText_pair hhigh hlow hx hfirst hsecond, ih]
    simp

theorem Spells.length_le (h : Spells s t) : t.length ≤ s.length := by
  induction h with
  | nil => simp
  | plain hquote hbackslash hcontrol hs ih => simpa using ih
  | short hletter hs ih =>
    simp only [List.length_cons]
    omega
  | quad hx hs ih =>
    simp only [List.length_cons]
    omega
  | pair hhigh hlow hx hfirst hsecond hs ih =>
    simp only [List.length_cons]
    omega

theorem isQuad_of_lt (h : n < 256) : IsQuad '0' '0' (hexDigit (n / 16)) (hexDigit n) n := by
  have hzero : IsHexDigit '0' 0 := ⟨by decide, .inl rfl⟩
  refine ⟨0, 0, n / 16 % 16, n % 16, hzero, hzero, isHexDigit_hexDigit _, isHexDigit_hexDigit n, ?_⟩
  omega

theorem Spells.escaped (h : Spells s t) (x : Char) : Spells (escaped x ++ s) (x :: t) := by
  unfold Json.escaped
  iterate 7
    split
    · subst x
      exact .short (by decide) h
  split
  · rename_i hcontrol
    exact .quad (isQuad_of_lt (by omega)) h
  · rename_i hquote hbackslash _ _ _ _ _ hcontrol
    exact .plain hquote hbackslash (Nat.not_lt.mp hcontrol) h

theorem spells_flatMap_escaped (t : List Char) : Spells (t.flatMap escaped) t := by
  induction t with
  | nil => exact .nil
  | cons x t ih => exact ih.escaped x

end Json
end Agenda
