import Agenda.Proofs.Text.Words
import Agenda.Text.Numeral
import Mathlib.Data.Char
import Mathlib.Data.List.Lex

/-!
# Integer literals

An integer literal is an optional sign and at least one ASCII digit, of any length and with any
leading zeros. Reading finds the number that it denotes when that number is in the range, and tells
a text to be beyond the range by a literal at its beginning. A numeral that is written is a literal
of its number. In a fixed number of places every number that fits is written in one way, and the
greater of two numbers is the greater text.
-/

namespace Agenda
namespace Text

/-- The text is a run of ASCII digits that denotes the number. -/
structure IsDigits (ds : List Char) (n : Nat) : Prop where
  ne_nil : ds ≠ []
  isDigit : ∀ c ∈ ds, c.isDigit = true
  value : Nat.ofDigitChars 10 ds 0 = n

/-- The text is an optional sign and a run of ASCII digits, and denotes the integer. -/
inductive IsInteger : List Char → Int → Prop
  | unsigned {ds : List Char} {n : Nat} (h : IsDigits ds n) : IsInteger ds n
  | plus {ds : List Char} {n : Nat} (h : IsDigits ds n) : IsInteger ('+' :: ds) n
  | minus {ds : List Char} {n : Nat} (h : IsDigits ds n) : IsInteger ('-' :: ds) (-n)

variable {s ds : List Char} {limit n : Nat} {k : Int}

theorem isDigit_ne_sign {c : Char} (h : c.isDigit = true) : c ≠ '+' ∧ c ≠ '-' := by
  constructor
  · rintro rfl
    cases h
  · rintro rfl
    cases h

theorem IsDigits.head_ne_sign (h : IsDigits ds n) :
    (∀ rest, ds ≠ '+' :: rest) ∧ ∀ rest, ds ≠ '-' :: rest := by
  constructor
  · rintro rest rfl
    exact (isDigit_ne_sign (h.isDigit '+' List.mem_cons_self)).1 rfl
  · rintro rest rfl
    exact (isDigit_ne_sign (h.isDigit '-' List.mem_cons_self)).2 rfl

theorem IsInteger.unique {l : Int} (hk : IsInteger s k) (hl : IsInteger s l) : k = l := by
  cases hk with
  | unsigned h =>
    cases hl with
    | unsigned h' => rw [← h.value, ← h'.value]
    | plus h' => exact absurd rfl (h.head_ne_sign.1 _)
    | minus h' => exact absurd rfl (h.head_ne_sign.2 _)
  | plus h =>
    cases hl with
    | unsigned h' => exact absurd rfl (h'.head_ne_sign.1 _)
    | plus h' => rw [← h.value, ← h'.value]
  | minus h =>
    cases hl with
    | unsigned h' => exact absurd rfl (h'.head_ne_sign.2 _)
    | minus h' => rw [← h.value, ← h'.value]

theorem IsInteger.ne_nil (h : IsInteger s k) : s ≠ [] := by
  cases h with
  | unsigned h => exact h.ne_nil
  | plus h => exact List.cons_ne_nil _ _
  | minus h => exact List.cons_ne_nil _ _

theorem IsInteger.isDigit_or_sign (h : IsInteger s k) :
    ∀ c ∈ s, c.isDigit = true ∨ c = '+' ∨ c = '-' := by
  intro c hc
  cases h with
  | unsigned h => exact .inl (h.isDigit c hc)
  | plus h =>
    rcases List.mem_cons.mp hc with rfl | hc
    · exact .inr (.inl rfl)
    · exact .inl (h.isDigit c hc)
  | minus h =>
    rcases List.mem_cons.mp hc with rfl | hc
    · exact .inr (.inr rfl)
    · exact .inl (h.isDigit c hc)

theorem IsInteger.not_mem {c : Char} (h : IsInteger s k)
    (hc : ¬ (c.isDigit = true ∨ c = '+' ∨ c = '-')) : c ∉ s :=
  fun hmem => hc (h.isDigit_or_sign c hmem)

theorem IsInteger.not_mem_comma (h : IsInteger s k) : ',' ∉ s := h.not_mem (by decide)

theorem IsInteger.not_mem_point (h : IsInteger s k) : '.' ∉ s := h.not_mem (by decide)

theorem isBlank_of_isDigit {c : Char} (h : c.isDigit = true) : isBlank c = false := by
  rw [Char.isDigit_iff_toNat] at h
  change 48 ≤ c.toNat ∧ c.toNat ≤ 57 at h
  exact isBlank_of_printable (by omega) (by omega)

theorem IsInteger.not_blank (h : IsInteger s k) : ∀ c ∈ s, isBlank c = false := by
  intro c hc
  rcases h.isDigit_or_sign c hc with hdigit | rfl | rfl
  · exact isBlank_of_isDigit hdigit
  · rfl
  · rfl

theorem le_ofDigitChars (ds : List Char) (n : Nat) : n ≤ Nat.ofDigitChars 10 ds n := by
  induction ds generalizing n with
  | nil => exact le_of_eq Nat.ofDigitChars_nil.symm
  | cons c ds ih =>
    rw [Nat.ofDigitChars_cons]
    have hle := ih (10 * n + (c.toNat - '0'.toNat))
    omega

theorem readMagnitude_eq_value_iff {m : Nat} (hn : n ≤ limit) :
    readMagnitude limit n ds = .value m ↔
      (∀ c ∈ ds, c.isDigit = true) ∧ Nat.ofDigitChars 10 ds n = m ∧ m ≤ limit := by
  induction ds generalizing n with
  | nil =>
    rw [readMagnitude, Magnitude.value.injEq, Nat.ofDigitChars_nil]
    constructor
    · rintro rfl
      exact ⟨by simp, rfl, hn⟩
    · exact fun h => h.2.1
  | cons c ds ih =>
    rw [readMagnitude, Nat.ofDigitChars_cons, List.forall_mem_cons]
    change (if c.isDigit = true then if 10 * n + digitValue c ≤ limit then _ else _ else _) = _ ↔
      _ ∧ Nat.ofDigitChars 10 ds (10 * n + digitValue c) = m ∧ _
    have hle := le_ofDigitChars ds (10 * n + digitValue c)
    split
    · rename_i hdigit
      split
      · rename_i hlimit
        rw [ih hlimit]
        simp only [hdigit, true_and]
      · -- the digits that follow make the number no smaller
        simp only [reduceCtorEq, false_iff]
        omega
    · rename_i hdigit
      simp [hdigit]

theorem readPositive_eq_value_iff {upper : Int} (hupper : 0 ≤ upper) :
    readPositive upper ds = .value k ↔ ∃ n : Nat, IsDigits ds n ∧ k = n ∧ k ≤ upper := by
  have hread : readPositive upper ds = .value k ↔
      ds ≠ [] ∧ ∃ n : Nat, readMagnitude upper.toNat 0 ds = .value n ∧ k = n := by
    cases ds with
    | nil => simp [readPositive]
    | cons c rest =>
      rw [readPositive]
      · cases readMagnitude upper.toNat 0 (c :: rest) <;> simp [eq_comm]
      · exact List.cons_ne_nil c rest
  rw [hread]
  constructor
  · rintro ⟨hnil, n, hn, rfl⟩
    rw [readMagnitude_eq_value_iff (Nat.zero_le _)] at hn
    exact ⟨n, ⟨hnil, hn.1, hn.2.1⟩, rfl, by omega⟩
  · rintro ⟨n, hn, rfl, hle⟩
    refine ⟨hn.ne_nil, n, ?_, rfl⟩
    rw [readMagnitude_eq_value_iff (Nat.zero_le _)]
    exact ⟨hn.isDigit, hn.value, by omega⟩

theorem readNegative_eq_value_iff {lower : Int} (hlower : lower ≤ 0) :
    readNegative lower ds = .value k ↔ ∃ n : Nat, IsDigits ds n ∧ k = -n ∧ lower ≤ k := by
  have hread : readNegative lower ds = .value k ↔
      ds ≠ [] ∧ ∃ n : Nat, readMagnitude (-lower).toNat 0 ds = .value n ∧ k = -n := by
    cases ds with
    | nil => simp [readNegative]
    | cons c rest =>
      rw [readNegative]
      · cases readMagnitude (-lower).toNat 0 (c :: rest) <;> simp [eq_comm]
      · exact List.cons_ne_nil c rest
  rw [hread]
  constructor
  · rintro ⟨hnil, n, hn, rfl⟩
    rw [readMagnitude_eq_value_iff (Nat.zero_le _)] at hn
    exact ⟨n, ⟨hnil, hn.1, hn.2.1⟩, rfl, by omega⟩
  · rintro ⟨n, hn, rfl, hle⟩
    refine ⟨hn.ne_nil, n, ?_, rfl⟩
    rw [readMagnitude_eq_value_iff (Nat.zero_le _)]
    exact ⟨hn.isDigit, hn.value, by omega⟩

/-- A numeral is read just when it is a literal of an integer of the range. -/
theorem readNumeral_eq_value_iff {lower upper : Int} (hlower : lower < 0) (hupper : 0 ≤ upper) :
    readNumeral lower upper s = .value k ↔ IsInteger s k ∧ lower ≤ k ∧ k ≤ upper := by
  constructor
  · intro h
    unfold readNumeral at h
    split at h
    · obtain ⟨n, hn, rfl, hle⟩ := (readPositive_eq_value_iff hupper).mp h
      exact ⟨.plus hn, by omega, hle⟩
    · rw [if_pos hlower] at h
      obtain ⟨n, hn, rfl, hle⟩ := (readNegative_eq_value_iff hlower.le).mp h
      exact ⟨.minus hn, hle, by omega⟩
    · obtain ⟨n, hn, rfl, hle⟩ := (readPositive_eq_value_iff hupper).mp h
      exact ⟨.unsigned hn, by omega, hle⟩
  · rintro ⟨h, hle, hge⟩
    cases h with
    | unsigned h =>
      rw [readNumeral]
      · exact (readPositive_eq_value_iff hupper).mpr ⟨_, h, rfl, hge⟩
      · exact h.head_ne_sign.1
      · exact h.head_ne_sign.2
    | plus h => exact (readPositive_eq_value_iff hupper).mpr ⟨_, h, rfl, hge⟩
    | minus h =>
      rw [readNumeral, if_pos hlower]
      exact (readNegative_eq_value_iff hlower.le).mpr ⟨_, h, rfl, hle⟩

theorem readInt64_eq_value_iff :
    readInt64 s = .value k ↔ IsInteger s k ∧ int64Min ≤ k ∧ k ≤ int64Max :=
  readNumeral_eq_value_iff (by decide) (by decide)

theorem value?_readInt64_eq_some_iff :
    (readInt64 s).value? = some k ↔ IsInteger s k ∧ int64Min ≤ k ∧ k ≤ int64Max := by
  rw [← readInt64_eq_value_iff]
  cases readInt64 s <;> simp [Numeral.value?]

-- Reading stops where the digits exceed the range, so a text beyond it is told by a literal at its
-- beginning. What follows this literal need not be a digit.

theorem exists_prefix_cons_iff {p : List Char → Prop} {c : Char} :
    (∃ pre, pre <+: c :: ds ∧ p pre) ↔ p [] ∨ ∃ pre, pre <+: ds ∧ p (c :: pre) := by
  constructor
  · rintro ⟨pre, hpre, hp⟩
    rcases List.prefix_cons_iff.mp hpre with rfl | ⟨rest, rfl, hrest⟩
    · exact .inl hp
    · exact .inr ⟨rest, hrest, hp⟩
  · rintro (hp | ⟨pre, hpre, hp⟩)
    · exact ⟨[], List.nil_prefix, hp⟩
    · exact ⟨c :: pre, (List.prefix_cons_inj c).mpr hpre, hp⟩

theorem readMagnitude_eq_beyond_iff (hn : n ≤ limit) :
    readMagnitude limit n ds = .beyond ↔
      ∃ pre, pre <+: ds ∧ (∀ c ∈ pre, c.isDigit = true) ∧ limit < Nat.ofDigitChars 10 pre n := by
  induction ds generalizing n with
  | nil =>
    rw [readMagnitude]
    simp only [reduceCtorEq, List.prefix_nil, false_iff]
    rintro ⟨pre, rfl, -, hlt⟩
    rw [Nat.ofDigitChars_nil] at hlt
    omega
  | cons c ds ih =>
    have hnil : ¬ limit < n := Nat.not_lt.mpr hn
    rw [readMagnitude, exists_prefix_cons_iff, Nat.ofDigitChars_nil]
    simp only [hnil, and_false, false_or, List.forall_mem_cons, Nat.ofDigitChars_cons]
    change (if c.isDigit = true then if 10 * n + digitValue c ≤ limit then _ else _ else _) = _ ↔
      ∃ pre, pre <+: ds ∧ _ ∧ limit < Nat.ofDigitChars 10 pre (10 * n + digitValue c)
    split
    · rename_i hdigit
      simp only [hdigit, true_and]
      split
      · rename_i hlimit
        exact ih hlimit
      · -- the digit itself exceeds the limit, and nothing behind it is looked at
        rename_i hlimit
        refine iff_of_true rfl ⟨[], List.nil_prefix, by simp, ?_⟩
        rw [Nat.ofDigitChars_nil]
        omega
    · rename_i hdigit
      simp [hdigit]

theorem readMagnitude_zero_eq_beyond_iff :
    readMagnitude limit 0 ds = .beyond ↔ ∃ pre m, pre <+: ds ∧ IsDigits pre m ∧ limit < m := by
  rw [readMagnitude_eq_beyond_iff (Nat.zero_le _)]
  constructor
  · rintro ⟨pre, hpre, hdigits, hlt⟩
    have hnil : pre ≠ [] := by
      rintro rfl
      rw [Nat.ofDigitChars_nil] at hlt
      exact Nat.not_lt_zero _ hlt
    exact ⟨pre, _, hpre, ⟨hnil, hdigits, rfl⟩, hlt⟩
  · rintro ⟨pre, m, hpre, hdigits, hlt⟩
    exact ⟨pre, hpre, hdigits.isDigit, hdigits.value ▸ hlt⟩

theorem readPositive_eq_above_iff {upper : Int} (hupper : 0 ≤ upper) :
    readPositive upper ds = .above ↔ ∃ pre n, pre <+: ds ∧ IsDigits pre n ∧ upper < n := by
  have hread : readPositive upper ds = .above ↔ readMagnitude upper.toNat 0 ds = .beyond := by
    cases ds with
    | nil => simp [readPositive, readMagnitude]
    | cons c rest =>
      rw [readPositive]
      · cases readMagnitude upper.toNat 0 (c :: rest) <;> simp
      · exact List.cons_ne_nil c rest
  rw [hread, readMagnitude_zero_eq_beyond_iff]
  simp only [Int.toNat_lt hupper]

theorem readNegative_eq_below_iff {lower : Int} (hlower : lower ≤ 0) :
    readNegative lower ds = .below ↔ ∃ pre n, pre <+: ds ∧ IsDigits pre n ∧ -n < lower := by
  have hread : readNegative lower ds = .below ↔ readMagnitude (-lower).toNat 0 ds = .beyond := by
    cases ds with
    | nil => simp [readNegative, readMagnitude]
    | cons c rest =>
      rw [readNegative]
      · cases readMagnitude (-lower).toNat 0 (c :: rest) <;> simp
      · exact List.cons_ne_nil c rest
  have hneg : ∀ m : Nat, (-lower).toNat < m ↔ -(m : Int) < lower := by
    intro m
    omega
  rw [hread, readMagnitude_zero_eq_beyond_iff]
  simp only [hneg]

theorem readPositive_ne_below (upper : Int) (ds : List Char) : readPositive upper ds ≠ .below := by
  unfold readPositive
  split <;> (try split) <;> simp

theorem readNegative_ne_above (lower : Int) (ds : List Char) : readNegative lower ds ≠ .above := by
  unfold readNegative
  split <;> (try split) <;> simp

section Beginning

variable {p : Int → Prop}

theorem exists_isInteger_prefix_plus_iff :
    (∃ pre k, pre <+: '+' :: ds ∧ IsInteger pre k ∧ p k) ↔
      ∃ pre n, pre <+: ds ∧ IsDigits pre n ∧ p (n : Nat) := by
  constructor
  · rintro ⟨pre, k, hpre, hk, hp⟩
    rcases List.prefix_cons_iff.mp hpre with rfl | ⟨rest, rfl, hrest⟩
    · exact absurd rfl hk.ne_nil
    · cases hk with
      | unsigned h => exact absurd rfl (h.head_ne_sign.1 rest)
      | plus h => exact ⟨rest, _, hrest, h, hp⟩
  · rintro ⟨pre, n, hpre, hn, hp⟩
    exact ⟨_, _, (List.prefix_cons_inj '+').mpr hpre, .plus hn, hp⟩

theorem exists_isInteger_prefix_minus_iff :
    (∃ pre k, pre <+: '-' :: ds ∧ IsInteger pre k ∧ p k) ↔
      ∃ pre n, pre <+: ds ∧ IsDigits pre n ∧ p (-(n : Nat)) := by
  constructor
  · rintro ⟨pre, k, hpre, hk, hp⟩
    rcases List.prefix_cons_iff.mp hpre with rfl | ⟨rest, rfl, hrest⟩
    · exact absurd rfl hk.ne_nil
    · cases hk with
      | unsigned h => exact absurd rfl (h.head_ne_sign.2 rest)
      | minus h => exact ⟨rest, _, hrest, h, hp⟩
  · rintro ⟨pre, n, hpre, hn, hp⟩
    exact ⟨_, _, (List.prefix_cons_inj '-').mpr hpre, .minus hn, hp⟩

theorem exists_isInteger_prefix_iff (hplus : ∀ rest, s ≠ '+' :: rest)
    (hminus : ∀ rest, s ≠ '-' :: rest) :
    (∃ pre k, pre <+: s ∧ IsInteger pre k ∧ p k) ↔
      ∃ pre n, pre <+: s ∧ IsDigits pre n ∧ p (n : Nat) := by
  constructor
  · rintro ⟨pre, k, ⟨rest, rfl⟩, hk, hp⟩
    cases hk with
    | unsigned h => exact ⟨_, _, List.prefix_append _ _, h, hp⟩
    | plus h => exact absurd rfl (hplus _)
    | minus h => exact absurd rfl (hminus _)
  · rintro ⟨pre, n, hpre, hn, hp⟩
    exact ⟨_, _, hpre, .unsigned hn, hp⟩

end Beginning

/-- A numeral is above the range when a literal at its beginning is. -/
theorem readNumeral_eq_above_iff {lower upper : Int} (hlower : lower < 0) (hupper : 0 ≤ upper) :
    readNumeral lower upper s = .above ↔ ∃ pre k, pre <+: s ∧ IsInteger pre k ∧ upper < k := by
  unfold readNumeral
  split
  · rw [readPositive_eq_above_iff hupper, exists_isInteger_prefix_plus_iff]
  · rw [if_pos hlower, exists_isInteger_prefix_minus_iff]
    refine iff_of_false (readNegative_ne_above _ _) ?_
    rintro ⟨pre, n, -, -, hlt⟩
    omega
  · rename_i hplus hminus
    rw [readPositive_eq_above_iff hupper, exists_isInteger_prefix_iff hplus hminus]

theorem readNumeral_eq_below_iff {lower upper : Int} (hlower : lower < 0) :
    readNumeral lower upper s = .below ↔ ∃ pre k, pre <+: s ∧ IsInteger pre k ∧ k < lower := by
  unfold readNumeral
  split
  · rw [exists_isInteger_prefix_plus_iff]
    refine iff_of_false (readPositive_ne_below _ _) ?_
    rintro ⟨pre, n, -, -, hlt⟩
    omega
  · rw [if_pos hlower, readNegative_eq_below_iff hlower.le, exists_isInteger_prefix_minus_iff]
  · rename_i hplus hminus
    rw [exists_isInteger_prefix_iff hplus hminus]
    refine iff_of_false (readPositive_ne_below _ _) ?_
    rintro ⟨pre, n, -, -, hlt⟩
    omega

theorem readInt64_eq_above_iff :
    readInt64 s = .above ↔ ∃ pre k, pre <+: s ∧ IsInteger pre k ∧ int64Max < k :=
  readNumeral_eq_above_iff (by decide) (by decide)

theorem readInt64_eq_below_iff :
    readInt64 s = .below ↔ ∃ pre k, pre <+: s ∧ IsInteger pre k ∧ k < int64Min :=
  readNumeral_eq_below_iff (by decide)

/-- A literal at the beginning of the text exceeds 64 bits. -/
def Overruns (s : List Char) : Prop :=
  ∃ pre k, pre <+: s ∧ IsInteger pre k ∧ (k < int64Min ∨ int64Max < k)

theorem readInt64_eq_malformed_iff :
    readInt64 s = .malformed ↔ (∀ k, ¬ IsInteger s k) ∧ ¬ Overruns s := by
  constructor
  · intro h
    have hshort : ¬ Overruns s := by
      rintro ⟨pre, k, hpre, hk, hlt | hlt⟩
      · cases h.symm.trans (readInt64_eq_below_iff.mpr ⟨pre, k, hpre, hk, hlt⟩)
      · cases h.symm.trans (readInt64_eq_above_iff.mpr ⟨pre, k, hpre, hk, hlt⟩)
    refine ⟨fun k hk => ?_, hshort⟩
    have hrange : int64Min ≤ k ∧ k ≤ int64Max := by
      by_contra hout
      exact hshort ⟨s, k, List.prefix_rfl, hk, by omega⟩
    cases h.symm.trans (readInt64_eq_value_iff.mpr ⟨hk, hrange⟩)
  · rintro ⟨hinteger, hshort⟩
    cases h : readInt64 s with
    | value k => exact absurd (readInt64_eq_value_iff.mp h).1 (hinteger k)
    | malformed => rfl
    | above =>
      obtain ⟨pre, k, hpre, hk, hlt⟩ := readInt64_eq_above_iff.mp h
      exact absurd ⟨pre, k, hpre, hk, .inr hlt⟩ hshort
    | below =>
      obtain ⟨pre, k, hpre, hk, hlt⟩ := readInt64_eq_below_iff.mp h
      exact absurd ⟨pre, k, hpre, hk, .inl hlt⟩ hshort

theorem isDigits_digits (n : Nat) : IsDigits (digits n) n where
  ne_nil := Nat.toDigits_ne_nil
  isDigit _ := Nat.isDigit_of_mem_toDigits (by decide) (by decide)
  value := Nat.ofDigitChars_ten_toDigits

theorem isInteger_digits (n : Nat) : IsInteger (digits n) n := .unsigned (isDigits_digits n)

theorem isInteger_decimal (k : Int) : IsInteger (decimal k) k := by
  cases k with
  | ofNat n => exact isInteger_digits n
  | negSucc n => exact .minus (isDigits_digits (n + 1))

theorem digitValue_lt {c : Char} (h : c.isDigit = true) : digitValue c < 10 := by
  rw [Char.isDigit_iff_toNat] at h
  change 48 ≤ c.toNat ∧ c.toNat ≤ 57 at h
  change c.toNat - 48 < 10
  omega

theorem digitValue_injective {c d : Char} (hc : c.isDigit = true) (hd : d.isDigit = true)
    (h : digitValue c = digitValue d) : c = d := by
  rw [Char.isDigit_iff_toNat] at hc hd
  change 48 ≤ c.toNat ∧ c.toNat ≤ 57 at hc
  change 48 ≤ d.toNat ∧ d.toNat ≤ 57 at hd
  change c.toNat - 48 = d.toNat - 48 at h
  exact Char.toNat_inj.mp (by omega)

theorem ofDigitChars_cons_zero (c : Char) (ds : List Char) :
    Nat.ofDigitChars 10 (c :: ds) 0 = 10 ^ ds.length * digitValue c + Nat.ofDigitChars 10 ds 0 := by
  rw [Nat.ofDigitChars_cons, Nat.ofDigitChars_eq_ofDigitChars_zero, Nat.mul_zero, Nat.zero_add]
  rfl

theorem ofDigitChars_lt (h : ∀ c ∈ ds, c.isDigit = true) :
    Nat.ofDigitChars 10 ds 0 < 10 ^ ds.length := by
  induction ds with
  | nil => simp
  | cons c ds ih =>
    rw [List.forall_mem_cons] at h
    have hc := digitValue_lt h.1
    have hrest := ih h.2
    rw [ofDigitChars_cons_zero, List.length_cons, Nat.pow_succ]
    nlinarith

theorem mul_add_lt_mul_add_iff {p a b r t : Nat} (hr : r < p) (ht : t < p) :
    p * a + r < p * b + t ↔ a < b ∨ a = b ∧ r < t := by
  rcases Nat.lt_trichotomy a b with hlt | rfl | hlt
  · have hle : p * (a + 1) ≤ p * b := Nat.mul_le_mul_left p hlt
    rw [Nat.mul_succ] at hle
    simp only [hlt, true_or, iff_true]
    omega
  · simp
  · have hle : p * (b + 1) ≤ p * a := Nat.mul_le_mul_left p hlt
    rw [Nat.mul_succ] at hle
    omega

theorem digitValue_lt_digitValue_iff {c d : Char} (hc : c.isDigit = true) (hd : d.isDigit = true) :
    digitValue c < digitValue d ↔ c < d := by
  rw [Char.isDigit_iff_toNat] at hc hd
  change 48 ≤ c.toNat ∧ c.toNat ≤ 57 at hc
  change 48 ≤ d.toNat ∧ d.toNat ≤ 57 at hd
  change c.toNat - 48 < d.toNat - 48 ↔ c.toNat < d.toNat
  omega

theorem ofDigitChars_lt_ofDigitChars_iff {es : List Char} (hds : ∀ c ∈ ds, c.isDigit = true)
    (hes : ∀ c ∈ es, c.isDigit = true) (hlength : ds.length = es.length) :
    Nat.ofDigitChars 10 ds 0 < Nat.ofDigitChars 10 es 0 ↔ ds < es := by
  induction ds generalizing es with
  | nil =>
    rw [List.length_eq_zero_iff.mp hlength.symm]
    simp
  | cons c ds ih =>
    cases es with
    | nil => cases hlength
    | cons e es =>
      rw [List.forall_mem_cons] at hds hes
      have hlength' : ds.length = es.length := Nat.succ.inj hlength
      have hlt := ofDigitChars_lt hds.2
      have hlt' := ofDigitChars_lt hes.2
      have hfirst : digitValue c = digitValue e ↔ c = e :=
        ⟨digitValue_injective hds.1 hes.1, congrArg digitValue⟩
      -- the first digits are the quotients by the power of ten, the rest are the remainders
      rw [← hlength'] at hlt'
      rw [ofDigitChars_cons_zero, ofDigitChars_cons_zero, ← hlength',
        mul_add_lt_mul_add_iff hlt hlt', digitValue_lt_digitValue_iff hds.1 hes.1, hfirst,
        ih hds.2 hes.2 hlength', List.cons_lt_cons_iff]

theorem eq_of_ofDigitChars_eq {es : List Char} (hds : ∀ c ∈ ds, c.isDigit = true)
    (hes : ∀ c ∈ es, c.isDigit = true) (hlength : ds.length = es.length)
    (h : Nat.ofDigitChars 10 ds 0 = Nat.ofDigitChars 10 es 0) : ds = es := by
  rcases lt_trichotomy ds es with hlt | heq | hlt
  · rw [← ofDigitChars_lt_ofDigitChars_iff hds hes hlength, h] at hlt
    exact absurd hlt (Nat.lt_irrefl _)
  · exact heq
  · rw [← ofDigitChars_lt_ofDigitChars_iff hes hds hlength.symm, h] at hlt
    exact absurd hlt (Nat.lt_irrefl _)

theorem IsDigits.append {es : List Char} {m : Nat} (hds : IsDigits ds n) (hes : IsDigits es m) :
    IsDigits (ds ++ es) (10 ^ es.length * n + m) where
  ne_nil := List.append_ne_nil_of_left_ne_nil hds.ne_nil es
  isDigit := List.forall_mem_append.mpr ⟨hds.isDigit, hes.isDigit⟩
  value := by
    rw [Nat.ofDigitChars_append, hds.value, Nat.ofDigitChars_eq_ofDigitChars_zero, hes.value]

theorem isDigits_padded (width n : Nat) : IsDigits (padded width n) n where
  ne_nil := List.append_ne_nil_of_right_ne_nil _ (isDigits_digits n).ne_nil
  isDigit c hc := by
    rcases List.mem_append.mp hc with hc | hc
    · rw [List.eq_of_mem_replicate hc]
      rfl
    · exact (isDigits_digits n).isDigit c hc
  value := by
    rw [padded, Nat.ofDigitChars_append, Nat.ofDigitChars_replicate_zero, Nat.mul_zero]
    exact (isDigits_digits n).value

theorem le_length_padded (width n : Nat) : width ≤ (padded width n).length := by
  rw [padded, List.length_append, List.length_replicate]
  omega

theorem length_padded {width : Nat} (hwidth : 0 < width) (h : n < 10 ^ width) :
    (padded width n).length = width := by
  have hle : (digits n).length ≤ width := (Nat.length_toDigits_le_iff (by decide) hwidth).mpr h
  rw [padded, List.length_append, List.length_replicate]
  omega

theorem IsDigits.eq_padded (h : IsDigits ds n) : ds = padded ds.length n := by
  have hlt := ofDigitChars_lt h.isDigit
  rw [h.value] at hlt
  refine eq_of_ofDigitChars_eq h.isDigit (isDigits_padded _ n).isDigit ?_ ?_
  · exact (length_padded (List.length_pos_iff.mpr h.ne_nil) hlt).symm
  · rw [h.value, (isDigits_padded _ n).value]

end Text
end Agenda
