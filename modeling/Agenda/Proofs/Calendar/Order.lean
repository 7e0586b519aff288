import Agenda.Proofs.Calendar.Text
import Agenda.Proofs.Text.Utf8

/-!
# Written days are ordered as the days are

In the years 0 to 9999 the written form of a day is one number of eight digits, in which the year
counts most and the day of the month least. Real dates are ordered as these numbers are, and runs of
digits of one length as well. So the earlier of two days has the smaller form, compared by
characters or by bytes.
-/

namespace Agenda

open Text

/-- The number whose digits are those of the year, the month and the day. -/
def Date.stamp (x : Date) : Int := 10000 * x.year + 100 * x.month + x.day

namespace Date.IsReal

variable {x y : Date}

theorem number_lt_of_stamp_lt (hx : x.IsReal) (hy : y.IsReal) (h : x.stamp < y.stamp) :
    x.number < y.number := by
  have hlength := monthLength_le x.year x.month
  have hlength' := monthLength_le y.year y.month
  obtain ⟨hm, hm', hd, hd'⟩ := id hx
  obtain ⟨hn, hn', he, he'⟩ := id hy
  unfold stamp at h
  rcases lt_trichotomy x.year y.year with hyear | hyear | hyear
  · exact hx.number_lt_of_year_lt hy hyear
  · rcases lt_trichotomy x.month y.month with hmonth | hmonth | hmonth
    · have hend := hx.day_add_le
      have hmono := daysThrough_mono x.year (Nat.le_sub_one_of_lt hmonth)
      unfold number
      rw [← hyear]
      omega
    · unfold number
      rw [← hyear, ← hmonth]
      omega
    · omega
  · omega

theorem eq_of_stamp_eq (hx : x.IsReal) (hy : y.IsReal) (h : x.stamp = y.stamp) : x = y := by
  have hlength := monthLength_le x.year x.month
  have hlength' := monthLength_le y.year y.month
  obtain ⟨-, hm, hd, hd'⟩ := hx
  obtain ⟨-, hn, he, he'⟩ := hy
  obtain ⟨year, month, day⟩ := x
  obtain ⟨year', month', day'⟩ := y
  simp only [stamp, mk.injEq] at *
  omega

theorem stamp_lt_stamp_iff (hx : x.IsReal) (hy : y.IsReal) :
    x.stamp < y.stamp ↔ x.number < y.number := by
  refine ⟨hx.number_lt_of_stamp_lt hy, fun h => ?_⟩
  rcases lt_trichotomy x.stamp y.stamp with hlt | heq | hlt
  · exact hlt
  · rw [hx.eq_of_stamp_eq hy heq] at h
    exact absurd h (lt_irrefl _)
  · exact absurd h (not_lt_of_gt (hy.number_lt_of_stamp_lt hx hlt))

end Date.IsReal

namespace Day

variable {d e : Day}

theorem isDigits_chars (h : 0 ≤ d.year ∧ d.year ≤ 9999) :
    IsDigits d.chars d.date.stamp.toNat := by
  have hmonth : (padded 2 d.month).length = 2 := length_padded (by decide) d.month_lt
  have hday : (padded 2 d.dayOfMonth).length = 2 := length_padded (by decide) d.dayOfMonth_lt
  have hdigits := ((isDigits_padded 4 d.year.natAbs).append (isDigits_padded 2 d.month)).append
    (isDigits_padded 2 d.dayOfMonth)
  have hstamp : d.date.stamp = 10000 * d.year + 100 * d.month + d.dayOfMonth := rfl
  rw [hmonth, hday] at hdigits
  rw [chars, yearText_eq h]
  convert hdigits using 1
  omega

theorem chars_lt_chars_iff (hd : 0 ≤ d.year ∧ d.year ≤ 9999) (he : 0 ≤ e.year ∧ e.year ≤ 9999) :
    d.chars < e.chars ↔ d < e := by
  have hlength : d.chars.length = e.chars.length := by
    rw [length_chars_eq_iff.mpr hd, length_chars_eq_iff.mpr he]
  have hdigits := isDigits_chars hd
  have hdigits' := isDigits_chars he
  have hstamp : d.date.stamp = 10000 * d.year + 100 * d.month + d.dayOfMonth := rfl
  have hdate : d.date.stamp < e.date.stamp ↔ d < e := by
    rw [d.date_isReal.stamp_lt_stamp_iff e.date_isReal, number_date, number_date, lt_def]
  rw [← ofDigitChars_lt_ofDigitChars_iff hdigits.isDigit hdigits'.isDigit hlength, hdigits.value,
    hdigits'.value, ← hdate]
  omega

theorem text_lt_text_iff (hd : 0 ≤ d.year ∧ d.year ≤ 9999) (he : 0 ≤ e.year ∧ e.year ≤ 9999) :
    d.text < e.text ↔ d < e := by
  rw [← chars_lt_chars_iff hd he, ← toList_text, ← toList_text]
  rfl

theorem utf8Bytes_chars_lt_iff (hd : 0 ≤ d.year ∧ d.year ≤ 9999)
    (he : 0 ≤ e.year ∧ e.year ≤ 9999) : utf8Bytes d.chars < utf8Bytes e.chars ↔ d < e := by
  rw [utf8Bytes_lt_utf8Bytes_iff, chars_lt_chars_iff hd he]

theorem ofText?_text_eq (d : Day) :
    ofText? d.text = if 0 ≤ d.year ∧ d.year ≤ 9999 then some d else none := by
  split
  · exact ofText?_text ‹_›
  · rename_i hrange
    rw [Option.eq_none_iff_forall_ne_some]
    intro e he
    obtain ⟨htext, hyear⟩ := ofText?_eq_some_iff.mp he
    rw [eq_of_text_eq htext.symm hyear] at hyear
    exact hrange hyear

end Day

end Agenda
