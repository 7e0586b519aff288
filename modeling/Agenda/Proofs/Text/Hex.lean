import Agenda.Text.Hex
import Mathlib.Tactic

/-!
# Bytes in hexadecimal digits

A text stands for bytes when it has two digits for each of them, every digit in either case. Reading
accepts these texts and no others. Bytes are written as one of the texts that stand for them.
-/

namespace Agenda
namespace Text

/-- The character is the digit of a number below 16, in lower or in upper case. -/
structure IsHexDigit (c : Char) (n : Nat) : Prop where
  lt : n < 16
  eq_digit : c = n.digitChar ∨ c = n.digitChar.toUpper

/-- The text has two digits for each of the bytes, the one that counts sixteenfold first. -/
inductive IsHex : List Char → List UInt8 → Prop
  | nil : IsHex [] []
  | cons {a b : Char} {x y : Nat} {s : List Char} {bytes : List UInt8} (ha : IsHexDigit a x)
    (hb : IsHexDigit b y) (hs : IsHex s bytes) :
    IsHex (a :: b :: s) (UInt8.ofNat (16 * x + y) :: bytes)

variable {c : Char} {n : Nat} {s : List Char} {bytes : List UInt8}

theorem toNat_digitChar (h : n < 16) :
    n.digitChar.toNat = (if n < 10 then n + 48 else n + 87) ∧
      n.digitChar.toUpper.toNat = if n < 10 then n + 48 else n + 55 := by
  revert n
  decide

theorem isHexDigit_iff_toNat : IsHexDigit c n ↔
    n < 10 ∧ c.toNat = n + 48 ∨ 10 ≤ n ∧ n < 16 ∧ (c.toNat = n + 87 ∨ c.toNat = n + 55) := by
  constructor
  · rintro ⟨hn, rfl | rfl⟩
    · rw [(toNat_digitChar hn).1]
      split <;> omega
    · rw [(toNat_digitChar hn).2]
      split <;> omega
  · intro h
    have hn : n < 16 := by omega
    refine ⟨hn, ?_⟩
    rw [← Char.toNat_inj, ← Char.toNat_inj, (toNat_digitChar hn).1, (toNat_digitChar hn).2]
    split <;> omega

theorem IsHexDigit.toNat_lt (h : IsHexDigit c n) : c.toNat < 128 := by
  rw [isHexDigit_iff_toNat] at h
  omega

theorem hexValue?_eq_some_iff : hexValue? c = some n ↔ IsHexDigit c n := by
  have hdecimal : '0' ≤ c ∧ c ≤ '9' ↔ 48 ≤ c.toNat ∧ c.toNat ≤ 57 := Iff.rfl
  have hlower : 'a' ≤ c ∧ c ≤ 'f' ↔ 97 ≤ c.toNat ∧ c.toNat ≤ 102 := Iff.rfl
  have hupper : 'A' ≤ c ∧ c ≤ 'F' ↔ 65 ≤ c.toNat ∧ c.toNat ≤ 70 := Iff.rfl
  rw [isHexDigit_iff_toNat, hexValue?]
  simp only [hdecimal, hlower, hupper, Char.reduceToNat]
  split
  · rw [Option.some.injEq]
    omega
  · split
    · rw [Option.some.injEq]
      omega
    · split
      · rw [Option.some.injEq]
        omega
      · simp only [reduceCtorEq, false_iff]
        omega

theorem bytesOfHex?_eq_some_iff : bytesOfHex? s = some bytes ↔ IsHex s bytes := by
  constructor
  · intro h
    fun_induction bytesOfHex? s generalizing bytes with
    | case1 =>
      cases h
      exact .nil
    | case2 => cases h
    | case3 a b rest x y hy hx ih =>
      obtain ⟨read, hread, rfl⟩ := Option.map_eq_some_iff.mp h
      rw [Nat.mul_comm]
      exact .cons (hexValue?_eq_some_iff.mp hx) (hexValue?_eq_some_iff.mp hy) (ih hread)
    | case4 => cases h
  · intro h
    induction h with
    | nil => rfl
    | @cons a b x y s bytes ha hb hs ih =>
      rw [bytesOfHex?, hexValue?_eq_some_iff.mpr ha, hexValue?_eq_some_iff.mpr hb]
      simp only [ih, Option.map_some, Nat.mul_comm x 16]

theorem IsHex.length_eq (h : IsHex s bytes) : s.length = 2 * bytes.length := by
  induction h with
  | nil => rfl
  | cons _ _ _ ih =>
    rw [List.length_cons, List.length_cons, List.length_cons, ih]
    omega

theorem isHexDigit_hexDigit (n : Nat) : IsHexDigit (hexDigit n) (n % 16) :=
  ⟨Nat.mod_lt n (by decide), .inl rfl⟩

theorem IsHex.exists_isHexDigit (h : IsHex s bytes) : ∀ c ∈ s, ∃ n, IsHexDigit c n := by
  induction h with
  | nil => simp
  | cons ha hb _ ih =>
    rw [List.forall_mem_cons, List.forall_mem_cons]
    exact ⟨⟨_, ha⟩, ⟨_, hb⟩, ih⟩

theorem ofNat_digits (b : UInt8) : UInt8.ofNat (16 * (b.toNat / 16 % 16) + b.toNat % 16) = b := by
  have hlt : b.toNat < 256 := b.toNat_lt
  rw [Nat.mod_eq_of_lt (by omega), Nat.div_add_mod, UInt8.ofNat_toNat]

theorem isHex_hexOfBytes (bytes : List UInt8) : IsHex (hexOfBytes bytes) bytes := by
  induction bytes with
  | nil => exact .nil
  | cons byte bytes ih =>
    have hcons :=
      IsHex.cons (isHexDigit_hexDigit (byte.toNat / 16)) (isHexDigit_hexDigit byte.toNat) ih
    rwa [ofNat_digits] at hcons

end Text
end Agenda
