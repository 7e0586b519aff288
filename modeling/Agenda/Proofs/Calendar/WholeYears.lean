import Agenda.Proofs.Calendar.LeapDay
import Agenda.Proofs.Calendar.Order

/-!
# Laws of whole years

A day moved by whole years lands in the target year, on its own month and day of the month unless it
is a leap day. More years lead to a later day, and a later day is moved to one that is not earlier.
Two moves come to one, except from a leap day. The one target the calendar has no answer for is the
December before its first day.
-/

namespace Agenda

namespace Date.IsReal

variable {x y : Date}

theorem stamp_addYears_le (hx : x.IsReal) (hy : y.IsReal) (h : x.stamp ≤ y.stamp) (k : Int) :
    (x.addYears k).stamp ≤ (y.addYears k).stamp := by
  have hlength := monthLength_le (x.year + k) x.month
  have hlength' := monthLength_le x.year x.month
  have hlength'' := monthLength_le y.year y.month
  rw [hx.addYears_eq, hy.addYears_eq]
  obtain ⟨-, hm, -, hd⟩ := hx
  obtain ⟨-, hn, he, he'⟩ := hy
  unfold stamp at *
  dsimp only at *
  rcases lt_trichotomy x.year y.year with hyear | hyear | hyear
  · omega
  · rcases lt_trichotomy x.month y.month with hmonth | hmonth | hmonth
    · omega
    · rw [hyear, hmonth] at h ⊢
      omega
    · omega
  · omega

theorem number_addYears_le (hx : x.IsReal) (hy : y.IsReal) (h : x.number ≤ y.number) (k : Int) :
    (x.addYears k).number ≤ (y.addYears k).number := by
  rw [← not_lt, ← hy.stamp_lt_stamp_iff hx, not_lt] at h
  rw [← not_lt, ← (hy.addYears k).stamp_lt_stamp_iff (hx.addYears k), not_lt]
  exact hx.stamp_addYears_le hy h k

end Date.IsReal

theorem ofDate?_nextMonth_firstYear :
    Day.ofDate? (nextMonth (firstYear - 1) 12) = some Day.first := by
  rw [Day.ofDate?_eq_some_iff]
  exact Day.date_eq_of_number_eq (nextMonth_isReal _ (by decide)) rfl

theorem daysInMonth_eq_error : daysInMonth (firstYear - 1) 12 = .error .beforeFirstDay := by
  have hprev : Day.first.prev? = none := by
    rw [Day.prev?, Day.ofNumber?_eq_none_iff]
    omega
  simp only [daysInMonth, ofDate?_nextMonth_firstYear, hprev]

theorem daysInMonth_of_lt_firstYear {year : Int} {month : Nat} (h : year < firstYear)
    (hne : ¬ (year = firstYear - 1 ∧ month = 12)) : daysInMonth year month = .ok 31 := by
  have hnone : Day.ofDate? (nextMonth year month) = none := by
    rw [Day.ofDate?_eq_none_iff]
    rintro ⟨-, hfirst, -⟩
    unfold nextMonth at hfirst
    split at hfirst <;> dsimp only at hfirst <;> omega
  simp only [daysInMonth, hnone]

/-- A year after the last one of 32 bits is no year of the calendar, and neither is the one that it
wraps to. -/
theorem ofDate?_nextMonth_bmod {year : Int} (hlow : -2 ^ 31 ≤ year) (hhigh : year < 2 ^ 31) :
    Day.ofDate? ⟨(year + 1).bmod (2 ^ 32), 1, 1⟩ = Day.ofDate? (nextMonth year 12) := by
  rw [nextMonth, if_pos rfl]
  by_cases hmax : year + 1 < 2 ^ 31
  · rw [Int.bmod_eq_of_le (by omega) (by omega)]
  · have hwrap : (year + 1).bmod (2 ^ 32) = -2 ^ 31 := by
      obtain rfl : year = 2 ^ 31 - 1 := by omega
      rfl
    have hmissing : Day.ofDate? ⟨year + 1, 1, 1⟩ = none := by
      rw [Day.ofDate?_eq_none_iff]
      rintro ⟨-, -, hlast⟩
      change year + 1 ≤ 262142 at hlast
      omega
    rw [hwrap, hmissing, Day.ofDate?_eq_none_iff]
    rintro ⟨-, hfirst, -⟩
    exact absurd hfirst (by decide)

namespace Day

variable {d e a b : Day} {j k : Int}

theorem addYears_of_mem (d : Day) (hfirst : firstYear ≤ d.year + k)
    (hlast : d.year + k ≤ lastYear) :
    ∃ e, d.addYears k = .ok (some e) ∧ e.date = d.date.addYears k := by
  have hyear := Date.year_addYears d.date k
  obtain ⟨e, he⟩ := exists_ofDate?_eq_some (d.date_isReal.addYears k) (hyear ▸ hfirst)
    (hyear ▸ hlast)
  exact ⟨e, by rw [addYears_eq d hfirst, he], ofDate?_eq_some_iff.mp he⟩

theorem addYears_of_not_mem (d : Day) (h : d.year + k < firstYear ∨ lastYear < d.year + k) :
    d.addYears k =
      if d.year + k = firstYear - 1 ∧ d.month = 12 then .error .beforeFirstDay else .ok none := by
  have hmissing : ∀ x : Date, x.year = d.year + k → ofDate? x = none := by
    intro x hx
    rw [ofDate?_eq_none_iff]
    omega
  split <;> rename_i hbefore
  · rw [addYears, hbefore.1, hbefore.2, daysInMonth_eq_error]
  · have hlength : daysInMonth (d.year + k) d.month = .ok 31 := by
      rcases h with h | h
      · exact daysInMonth_of_lt_firstYear h hbefore
      · exact daysInMonth_of_lastYear_lt h d.month
    simp only [addYears, hlength, hmissing]

theorem date_of_addYears (h : d.addYears k = .ok (some e)) : e.date = d.date.addYears k := by
  by_cases hmem : firstYear ≤ d.year + k ∧ d.year + k ≤ lastYear
  · obtain ⟨e', he', hdate⟩ := d.addYears_of_mem hmem.1 hmem.2
    rw [h] at he'
    injection he' with he'
    injection he' with he'
    rw [he', hdate]
  · rw [addYears_of_not_mem d (by omega)] at h
    split at h <;> cases h

theorem year_of_addYears (h : d.addYears k = .ok (some e)) : e.year = d.year + k :=
  (congrArg Date.year (date_of_addYears h)).trans (Date.year_addYears _ _)

theorem lt_of_addYears (ha : d.addYears j = .ok (some a)) (hb : d.addYears k = .ok (some b))
    (h : j < k) : a < b := by
  apply lt_of_year_lt
  rw [year_of_addYears ha, year_of_addYears hb]
  omega

theorem le_of_addYears (ha : d.addYears k = .ok (some a)) (hb : e.addYears k = .ok (some b))
    (h : d ≤ e) : a ≤ b := by
  rw [le_def, ← number_date d, ← number_date e] at h
  rw [le_def, ← number_date a, ← number_date b, date_of_addYears ha, date_of_addYears hb]
  exact d.date_isReal.number_addYears_le e.date_isReal h k

theorem addYears_addYears (hd : d.date ≠ leapDate d.year) (hj : firstYear ≤ d.year + j)
    (hj' : d.year + j ≤ lastYear) (hk : firstYear ≤ d.year + (j + k))
    (hk' : d.year + (j + k) ≤ lastYear) :
    ∃ e e', d.addYears j = .ok (some e) ∧ e.addYears k = .ok (some e') ∧
      d.addYears (j + k) = .ok (some e') := by
  obtain ⟨e, he, hdate⟩ := d.addYears_of_mem hj hj'
  obtain ⟨e', he', hdate'⟩ := d.addYears_of_mem hk hk'
  have hyear := year_of_addYears he
  obtain ⟨e'', he'', hdate''⟩ := e.addYears_of_mem (k := k) (by omega) (by omega)
  have heq : e'' = e' := by
    apply eq_of_date_eq
    rw [hdate'', hdate', hdate, Date.addYears_addYears hd]
  exact ⟨e, e', he, heq ▸ he'', he'⟩

/-- In the years of the calendar a month has its Gregorian length, also the last one, which no other
month follows. Moving a day to such a year keeps its month and its day of the month, where the 29th
of February becomes the 28th in a common year. Any other year has no answer but in one case. More
years lead to a later day, a later day to one that is not earlier, and moves add up unless the day
is a leap day. Where the next year has more than 32 bits, it may as well be wrapped. -/
theorem whole_years :
    (∀ (year : Int) (month : Nat), firstYear ≤ year → year ≤ lastYear → 1 ≤ month → month ≤ 12 →
      daysInMonth year month = .ok (monthLength year month)) ∧
    ofDate? (nextMonth lastYear 12) = none ∧
    (∀ (d : Day) (k : Int), firstYear ≤ d.year + k → d.year + k ≤ lastYear →
      ∃ e, d.addYears k = .ok (some e) ∧
        (d.date ≠ leapDate d.year → e.date = ⟨d.year + k, d.month, d.dayOfMonth⟩) ∧
        (d.date = leapDate d.year →
          e.date = ⟨d.year + k, 2, if isLeapYear (d.year + k) then 29 else 28⟩)) ∧
    (∀ (d : Day) (k : Int), d.year + k < firstYear ∨ lastYear < d.year + k →
      d.addYears k =
        if d.year + k = firstYear - 1 ∧ d.month = 12 then .error .beforeFirstDay else .ok none) ∧
    (∀ (d a b : Day) (j k : Int), d.addYears j = .ok (some a) → d.addYears k = .ok (some b) →
      j < k → a < b) ∧
    (∀ (d e a b : Day) (k : Int), d.addYears k = .ok (some a) → e.addYears k = .ok (some b) →
      d ≤ e → a ≤ b) ∧
    (∀ (d : Day) (j k : Int), d.date ≠ leapDate d.year → firstYear ≤ d.year + j →
      d.year + j ≤ lastYear → firstYear ≤ d.year + (j + k) → d.year + (j + k) ≤ lastYear →
      ∃ e e', d.addYears j = .ok (some e) ∧ e.addYears k = .ok (some e') ∧
        d.addYears (j + k) = .ok (some e')) ∧
    (∀ year : Int, -2 ^ 31 ≤ year → year < 2 ^ 31 →
      ofDate? ⟨(year + 1).bmod (2 ^ 32), 1, 1⟩ = ofDate? (nextMonth year 12)) := by
  refine ⟨?_, ?_, ?_, ?_, ?_, ?_, ?_, ?_⟩
  · intro year month hfirst hlast hmonth hmonth'
    exact daysInMonth_eq hfirst hlast ⟨hmonth, hmonth'⟩
  · rw [ofDate?_eq_none_iff]
    rintro ⟨-, -, hlast⟩
    exact absurd hlast (by decide)
  · intro d k hfirst hlast
    obtain ⟨e, he, hdate⟩ := d.addYears_of_mem hfirst hlast
    refine ⟨e, he, ?_, ?_⟩
    · intro hd
      exact hdate.trans (Date.addYears_of_ne_leapDate hd k)
    · intro hd
      exact hdate.trans (Date.addYears_of_leapDate hd k)
  · intro d k h
    exact d.addYears_of_not_mem h
  · intro d a b j k ha hb
    exact lt_of_addYears ha hb
  · intro d e a b k ha hb
    exact le_of_addYears ha hb
  · intro d j k hd hj hj' hk hk'
    exact addYears_addYears hd hj hj' hk hk'
  · intro year hlow hhigh
    exact ofDate?_nextMonth_bmod hlow hhigh

/-- The leap day of 2024 becomes the 28th one year later, and the first of March stays behind it.
The last December has 31 days, and a December before the first day has no answer. -/
theorem whole_years_leapDay : ∃ d e a b c : Day, d.date = ⟨2024, 2, 29⟩ ∧ e.date = ⟨2024, 3, 1⟩ ∧
    daysInMonth 262142 12 = .ok 31 ∧ d.addYears 1 = .ok (some a) ∧ a.date = ⟨2025, 2, 28⟩ ∧
    e.addYears 1 = .ok (some b) ∧ b.date = ⟨2025, 3, 1⟩ ∧ a ≤ b ∧
    e.addYears (1 + 3) = .ok (some c) ∧ b.addYears 3 = .ok (some c) ∧ b < c ∧
    last.addYears (-524286) = .error .beforeFirstDay := by
  obtain ⟨hlength, -, hmoved, houtside, hyears, hdays, hsum, -⟩ := whole_years
  let d : Day := ⟨738945, by decide, by decide⟩
  let e : Day := ⟨738946, by decide, by decide⟩
  have hd : d.date = ⟨2024, 2, 29⟩ := by decide +kernel
  have he : e.date = ⟨2024, 3, 1⟩ := by decide +kernel
  have hyear : d.year = 2024 := congrArg Date.year hd
  have hyear' : e.year = 2024 := congrArg Date.year he
  have hlast : last.date = ⟨262142, 12, 31⟩ := by decide +kernel
  have hnext : e.date ≠ leapDate e.year := by
    rw [he]
    decide
  obtain ⟨a, ha, -, hleap⟩ := hmoved d 1 (by rw [hyear]; decide) (by rw [hyear]; decide)
  obtain ⟨b, hb, hkept, -⟩ := hmoved e 1 (by rw [hyear']; decide) (by rw [hyear']; decide)
  obtain ⟨b', c, hb', hc, hc'⟩ := hsum e 1 3 hnext (by rw [hyear']; decide)
    (by rw [hyear']; decide) (by rw [hyear']; decide) (by rw [hyear']; decide)
  obtain rfl : b' = b := Option.some.inj (Except.ok.inj (hb'.symm.trans hb))
  refine ⟨d, e, a, b', c, hd, he, hlength _ 12 (by decide) (by decide) (by decide) (by decide), ha,
    ?_, hb, ?_, hdays d e a b' 1 ha hb (by decide), hc', hc,
    hyears e b' c 1 (1 + 3) hb hc' (by decide), ?_⟩
  · rw [hleap (by rw [hd, hyear]; rfl), hyear]
    rfl
  · rw [hkept hnext, hyear', month, dayOfMonth, he]
    rfl
  · have hmonth : last.month = 12 := congrArg Date.month hlast
    have hbefore : last.year + (-524286) = firstYear - 1 :=
      congrArg (fun x => x.year + (-524286)) hlast
    rw [houtside last _ (by omega), if_pos ⟨hbefore, hmonth⟩]

end Day

end Agenda
