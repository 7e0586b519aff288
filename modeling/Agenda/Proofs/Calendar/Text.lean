import Agenda.Calendar.Text
import Agenda.Proofs.Calendar.Month
import Agenda.Proofs.Text.Ascii

/-!
# Written days are read back

The form of a day in the years 0 to 9999 is the one text of eight digits that is read as this day.
The form of any other day is longer and is no day.
-/

namespace Agenda

open Text

/-- The text is a real date, with four digits for the year and two each for the month and the
day. -/
structure Date.IsSpelledBy (x : Date) (s : List Char) : Prop where
  isReal : x.IsReal
  year_range : 0 ≤ x.year ∧ x.year ≤ 9999
  eq_digits : s = padded 4 x.year.natAbs ++ padded 2 x.month ++ padded 2 x.day

theorem Date.IsSpelledBy.exists_date_eq {x : Date} {s : List Char} (h : x.IsSpelledBy s) :
    ∃ d : Day, d.date = x := by
  have hfirst : firstYear ≤ x.year := le_trans (by decide) h.year_range.1
  have hlast : x.year ≤ lastYear := le_trans h.year_range.2 (by decide)
  obtain ⟨d, hd⟩ := Day.exists_ofDate?_eq_some h.isReal hfirst hlast
  exact ⟨d, Day.ofDate?_eq_some_iff.mp hd⟩

namespace Day

variable {d : Day} {s : List Char}

theorem ofChars?_append {y m d : List Char} (hy : y.length = 4) (hm : m.length = 2)
    (hd : d.length = 2) (hdigit : ∀ c ∈ y ++ m ++ d, c.isDigit = true) :
    ofChars? (y ++ m ++ d) = ofDate? ⟨fieldValue y, fieldValue m, fieldValue d⟩ := by
  match y, m, d, hy, hm, hd with
  | [_, _, _, _], [_, _], [_, _], _, _, _ => exact if_pos (List.all_eq_true.mpr hdigit)

theorem exists_fields_of_ofChars? (h : ofChars? s = some d) : ∃ y m e : List Char,
    y.length = 4 ∧ m.length = 2 ∧ e.length = 2 ∧ s = y ++ m ++ e ∧
      (∀ c ∈ s, c.isDigit = true) ∧ d.date = ⟨fieldValue y, fieldValue m, fieldValue e⟩ := by
  unfold ofChars? at h
  split at h
  · rename_i y₁ y₂ y₃ y₄ m₁ m₂ d₁ d₂
    split at h
    · rename_i hdigit
      exact ⟨[y₁, y₂, y₃, y₄], [m₁, m₂], [d₁, d₂], rfl, rfl, rfl, rfl, List.all_eq_true.mp hdigit,
        ofDate?_eq_some_iff.mp h⟩
    · cases h
  · cases h

theorem month_lt (d : Day) : d.month < 10 ^ 2 := by
  have := d.date_isReal.2.1
  unfold month
  omega

theorem dayOfMonth_lt (d : Day) : d.dayOfMonth < 10 ^ 2 := by
  have hle := d.date_isReal.2.2.2
  have hlength := monthLength_le d.date.year d.date.month
  unfold dayOfMonth
  omega

theorem yearText_eq {year : Int} (h : 0 ≤ year ∧ year ≤ 9999) :
    yearText year = padded 4 year.natAbs := if_pos h

theorem ofChars?_eq_some_iff :
    ofChars? s = some d ↔ s = d.chars ∧ 0 ≤ d.year ∧ d.year ≤ 9999 := by
  constructor
  · intro h
    obtain ⟨y, m, e, hy, hm, he, rfl, hdigit, hdate⟩ := exists_fields_of_ofChars? h
    simp only [List.forall_mem_append] at hdigit
    have hyear : d.year = fieldValue y := congrArg Date.year hdate
    have hmonth : d.month = fieldValue m := congrArg Date.month hdate
    have hday : d.dayOfMonth = fieldValue e := congrArg Date.day hdate
    have hlt : fieldValue y < 10 ^ 4 := hy ▸ ofDigitChars_lt hdigit.1.1
    have hrange : 0 ≤ d.year ∧ d.year ≤ 9999 := by omega
    have hfield : ∀ ds : List Char, 0 < ds.length → (∀ c ∈ ds, c.isDigit = true) →
        ds = padded ds.length (fieldValue ds) :=
      fun ds hpos hds => IsDigits.eq_padded ⟨List.length_pos_iff.mp hpos, hds, rfl⟩
    refine ⟨?_, hrange⟩
    rw [chars, yearText_eq hrange, hyear, hmonth, hday, Int.natAbs_natCast, ← hy, ← hm,
      ← hfield y (by omega) hdigit.1.1, ← hfield m (by omega) hdigit.1.2, hm, ← he,
      ← hfield e (by omega) hdigit.2]
  · rintro ⟨rfl, hrange⟩
    have hyear : d.year.natAbs < 10 ^ 4 := by omega
    have hvalue : ∀ width n, fieldValue (padded width n) = n :=
      fun width n => (isDigits_padded width n).value
    rw [chars, yearText_eq hrange, ofChars?_append (length_padded (by decide) hyear)
      (length_padded (by decide) d.month_lt) (length_padded (by decide) d.dayOfMonth_lt), hvalue,
      hvalue, hvalue, Int.natAbs_of_nonneg hrange.1, ofDate?_eq_some_iff]
    · rfl
    · simp only [List.forall_mem_append]
      exact ⟨⟨(isDigits_padded 4 _).isDigit, (isDigits_padded 2 _).isDigit⟩,
        (isDigits_padded 2 _).isDigit⟩

@[simp] theorem toList_text (d : Day) : d.text.toList = d.chars := String.toList_ofList

theorem ofText?_eq_some_iff {s : String} :
    ofText? s = some d ↔ s = d.text ∧ 0 ≤ d.year ∧ d.year ≤ 9999 := by
  rw [ofText?, ofChars?_eq_some_iff, ← toList_text, String.toList_inj]

theorem ofText?_text (h : 0 ≤ d.year ∧ d.year ≤ 9999) : ofText? d.text = some d :=
  ofText?_eq_some_iff.mpr ⟨rfl, h⟩

theorem ofText?_eq_some_iff_isSpelledBy {s : String} :
    ofText? s = some d ↔ d.date.IsSpelledBy s.toList := by
  rw [ofText?, ofChars?_eq_some_iff]
  constructor
  · rintro ⟨hs, hrange⟩
    rw [chars, yearText_eq hrange] at hs
    exact ⟨d.date_isReal, hrange, hs⟩
  · intro h
    have hrange : 0 ≤ d.year ∧ d.year ≤ 9999 := h.year_range
    refine ⟨?_, hrange⟩
    rw [h.eq_digits, chars, yearText_eq hrange]
    rfl

theorem ofText?_eq_none_iff {s : String} :
    ofText? s = none ↔ ∀ x : Date, ¬ x.IsSpelledBy s.toList := by
  rw [Option.eq_none_iff_forall_ne_some]
  constructor
  · intro h x hx
    obtain ⟨d, rfl⟩ := hx.exists_date_eq
    exact h d (ofText?_eq_some_iff_isSpelledBy.mpr hx)
  · intro h d hd
    exact h d.date (ofText?_eq_some_iff_isSpelledBy.mp hd)

theorem isDigit_or_sign_of_mem_chars {c : Char} (h : c ∈ d.chars) :
    c.isDigit = true ∨ c = '+' ∨ c = '-' := by
  have hpadded : ∀ {width n}, c ∈ padded width n → c.isDigit = true :=
    fun hc => (isDigits_padded _ _).isDigit c hc
  rw [chars, List.mem_append, List.mem_append, yearText] at h
  rcases h with (h | h) | h
  · split at h
    · exact .inl (hpadded h)
    · rcases List.mem_cons.mp h with rfl | h
      · split
        · exact .inr (.inr rfl)
        · exact .inr (.inl rfl)
      · exact .inl (hpadded h)
  · exact .inl (hpadded h)
  · exact .inl (hpadded h)

@[simp] theorem trim_text (d : Day) : trim d.text = d.text := by
  rw [trim, toList_text, trimmed_eq_self, text]
  intro c hc
  rcases isDigit_or_sign_of_mem_chars hc with h | rfl | rfl
  · exact isBlank_of_isDigit h
  · rfl
  · rfl

theorem text_ne_empty (d : Day) : d.text ≠ "" := by
  rw [Ne, ← String.toList_eq_nil_iff, toList_text, chars]
  exact List.append_ne_nil_of_right_ne_nil _ (isDigits_padded 2 _).ne_nil

theorem length_chars_eq_iff : d.chars.length = 8 ↔ 0 ≤ d.year ∧ d.year ≤ 9999 := by
  have hmonth : (padded 2 d.month).length = 2 := length_padded (by decide) d.month_lt
  have hday : (padded 2 d.dayOfMonth).length = 2 := length_padded (by decide) d.dayOfMonth_lt
  rw [chars, List.length_append, List.length_append, hmonth, hday, yearText]
  split
  · rename_i hrange
    have hyear : d.year.natAbs < 10 ^ 4 := by omega
    rw [length_padded (by decide) hyear]
    simp [hrange]
  · rename_i hrange
    -- the sign makes five places at least
    have hle := le_length_padded 4 d.year.natAbs
    rw [List.length_cons]
    simp only [hrange, iff_false]
    omega

theorem isAscii_chars (d : Day) : IsAscii d.chars := by
  intro c hc
  rcases isDigit_or_sign_of_mem_chars hc with h | rfl | rfl
  · exact isDigit_toNat_lt h
  · decide
  · decide

theorem utf8ByteSize_text_eq_iff : d.text.utf8ByteSize = 8 ↔ 0 ≤ d.year ∧ d.year ≤ 9999 := by
  rw [← length_chars_eq_iff, text, utf8ByteSize_ofList d.isAscii_chars]

theorem eq_of_text_eq {e : Day} (h : d.text = e.text) (hd : 0 ≤ d.year ∧ d.year ≤ 9999) :
    d = e := by
  have he : 0 ≤ e.year ∧ e.year ≤ 9999 := by
    rwa [← utf8ByteSize_text_eq_iff, ← h, utf8ByteSize_text_eq_iff]
  have hread := ofText?_text hd
  rw [h, ofText?_text he] at hread
  exact (Option.some.inj hread).symm

end Day

end Agenda
