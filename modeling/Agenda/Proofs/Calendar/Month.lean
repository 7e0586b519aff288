import Agenda.Calendar.Month
import Agenda.Proofs.Calendar.Day

/-!
# Month lengths and whole years by the Gregorian rules

The length of a month, found as the day before the first day of the next month, is the one of the
Gregorian rules. So a day moved by whole years keeps its month and its day of the month, and only
the 29th of February becomes the 28th in a common year.
-/

namespace Agenda

theorem monthLength_of_ne_two {month : Nat} (h : month ≠ 2) (y z : Int) :
    monthLength y month = monthLength z month := by
  unfold monthLength
  split <;> simp_all

def commonMonthLength (month : Nat) : Nat := monthLength 1 month

def leapMonthLength (month : Nat) : Nat := monthLength 4 month

theorem monthLength_eq (year : Int) (month : Nat) :
    monthLength year month =
      if isLeapYear year then leapMonthLength month else commonMonthLength month := by
  unfold leapMonthLength commonMonthLength
  by_cases h : month = 2
  · subst h
    rfl
  · rw [monthLength_of_ne_two h year 1, monthLength_of_ne_two h 4 1, ite_self]

theorem commonMonthLength_le_leapMonthLength (month : Nat) :
    commonMonthLength month ≤ leapMonthLength month := by
  by_cases h : month = 2
  · subst h
    decide
  · exact (monthLength_of_ne_two h 1 4).le

theorem commonMonthLength_le (year : Int) (month : Nat) :
    commonMonthLength month ≤ monthLength year month := by
  rw [monthLength_eq]
  split
  · exact commonMonthLength_le_leapMonthLength month
  · exact le_rfl

theorem monthLength_le_leapMonthLength (year : Int) (month : Nat) :
    monthLength year month ≤ leapMonthLength month := by
  rw [monthLength_eq]
  split
  · exact le_rfl
  · exact commonMonthLength_le_leapMonthLength month

/-- Only the 29th of February exists in some years and not in others. -/
theorem eq_leapDay_of_commonMonthLength_lt {year : Int} {month day : Nat}
    (hcommon : commonMonthLength month < day) (h : day ≤ monthLength year month) :
    month = 2 ∧ day = 29 ∧ isLeapYear year = true := by
  by_cases hm : month = 2
  · subst hm
    simp only [monthLength] at h
    change 28 < day at hcommon
    split at h <;> rename_i hleap
    · exact ⟨rfl, by omega, hleap⟩
    · omega
  · rw [commonMonthLength, monthLength_of_ne_two hm 1 year] at hcommon
    omega

theorem nextMonth_isReal (year : Int) {month : Nat} (hmonth : 1 ≤ month ∧ month ≤ 12) :
    (nextMonth year month).IsReal := by
  unfold nextMonth
  split
  · exact ⟨le_rfl, by simp, le_rfl, monthLength_pos _ _⟩
  · refine ⟨?_, ?_, le_rfl, monthLength_pos _ _⟩ <;> dsimp only <;> omega

theorem number_nextMonth (year : Int) {month : Nat} (hmonth : 1 ≤ month ∧ month ≤ 12) :
    (nextMonth year month).number =
      (⟨year, month, monthLength year month⟩ : Date).number + 1 := by
  obtain ⟨m, rfl⟩ : ∃ m, month = m + 1 := ⟨month - 1, by omega⟩
  unfold nextMonth
  split <;> rename_i h
  · obtain rfl : m = 11 := by omega
    simp only [Date.number, yearStart_add_one, Nat.sub_self, Nat.add_sub_cancel, daysThrough]
    omega
  · simp only [Date.number, Nat.add_sub_cancel, daysThrough]
    omega

theorem lastOfMonth_isReal (year : Int) {month : Nat} (hmonth : 1 ≤ month ∧ month ≤ 12) :
    (⟨year, month, monthLength year month⟩ : Date).IsReal :=
  ⟨hmonth.1, hmonth.2, monthLength_pos year month, le_rfl⟩

theorem daysInMonth_eq {year : Int} {month : Nat} (hfirst : firstYear ≤ year)
    (hlast : year ≤ lastYear) (hmonth : 1 ≤ month ∧ month ≤ 12) :
    daysInMonth year month = .ok (monthLength year month) := by
  unfold daysInMonth
  have hreal := nextMonth_isReal year hmonth
  cases hnext : Day.ofDate? (nextMonth year month) with
  | none =>
    -- the next month is missing only behind the December of the last year
    have hyear : (nextMonth year month).year < firstYear ∨
        lastYear < (nextMonth year month).year := by
      rw [Day.ofDate?_eq_none_iff] at hnext
      by_contra hin
      exact hnext ⟨hreal, by omega, by omega⟩
    unfold nextMonth at hyear
    split at hyear <;> rename_i h
    · subst h
      rfl
    · dsimp only at hyear
      omega
  | some start =>
    obtain ⟨d, hd⟩ := Day.exists_ofDate?_eq_some (lastOfMonth_isReal year hmonth) hfirst hlast
    have hdate := Day.ofDate?_eq_some_iff.mp hd
    have hprev : start.prev? = some d := by
      rw [Day.prev?, Day.ofNumber?_eq_some_iff, ← Day.number_date start,
        Day.ofDate?_eq_some_iff.mp hnext, number_nextMonth year hmonth, ← hdate, Day.number_date]
      omega
    simp only [hprev, Day.dayOfMonth, hdate]

theorem daysInMonth_of_lastYear_lt {year : Int} (h : lastYear < year) (month : Nat) :
    daysInMonth year month = .ok 31 := by
  have hnone : Day.ofDate? (nextMonth year month) = none := by
    rw [Day.ofDate?_eq_none_iff]
    rintro ⟨-, -, hlast⟩
    unfold nextMonth at hlast
    split at hlast <;> dsimp only at hlast <;> omega
  simp only [daysInMonth, hnone]

/-- The date `k` years later, where the 29th of February becomes the 28th in a common year. -/
def Date.addYears (x : Date) (k : Int) : Date :=
  if x.month = 2 ∧ x.day = 29 ∧ isLeapYear (x.year + k) = false then ⟨x.year + k, 2, 28⟩
  else ⟨x.year + k, x.month, x.day⟩

namespace Date

@[simp] theorem year_addYears (x : Date) (k : Int) : (x.addYears k).year = x.year + k := by
  unfold addYears
  split <;> rfl

theorem IsReal.addYears_eq {x : Date} (hx : x.IsReal) (k : Int) :
    x.addYears k =
      ⟨x.year + k, x.month, min x.day (monthLength (x.year + k) x.month)⟩ := by
  unfold addYears
  split <;> rename_i h
  · obtain ⟨hmonth, hday, hleap⟩ := h
    rw [hmonth, hday, monthLength_eq, hleap]
    rfl
  · have hle : x.day ≤ monthLength (x.year + k) x.month := by
      by_contra hlt
      obtain ⟨hmonth, hday, -⟩ := eq_leapDay_of_commonMonthLength_lt
        (lt_of_le_of_lt (commonMonthLength_le (x.year + k) x.month) (by omega)) hx.2.2.2
      rw [hmonth, hday, monthLength_eq] at hlt
      refine h ⟨hmonth, hday, ?_⟩
      cases hleap : isLeapYear (x.year + k) with
      | false => rfl
      | true => exact absurd (by rw [if_pos hleap]; decide) hlt
    rw [Nat.min_eq_left hle]

theorem IsReal.addYears {x : Date} (hx : x.IsReal) (k : Int) : (x.addYears k).IsReal := by
  rw [hx.addYears_eq]
  have hlength := monthLength_pos (x.year + k) x.month
  refine ⟨hx.1, hx.2.1, ?_, Nat.min_le_right _ _⟩
  have := hx.2.2.1
  dsimp only
  omega

end Date

namespace Day

theorem month_range (d : Day) : 1 ≤ d.month ∧ d.month ≤ 12 :=
  ⟨d.date_isReal.1, d.date_isReal.2.1⟩

theorem lastDayOfMonth_eq (d : Day) : d.lastDayOfMonth = .ok (monthLength d.year d.month) :=
  daysInMonth_eq d.firstYear_le_year d.year_le_lastYear d.month_range

/-- Moving a day forward never meets the fault of the calendar. -/
theorem addYears_eq (d : Day) {k : Int} (h : firstYear ≤ d.year + k) :
    d.addYears k = .ok (ofDate? (d.date.addYears k)) := by
  unfold addYears
  by_cases hlast : d.year + k ≤ lastYear
  · rw [daysInMonth_eq h hlast d.month_range, d.date_isReal.addYears_eq]
    rfl
  · have hmissing : ∀ x : Date, x.year = d.year + k → ofDate? x = none := by
      intro x hx
      rw [ofDate?_eq_none_iff]
      omega
    rw [daysInMonth_of_lastYear_lt (by omega), hmissing _ (Date.year_addYears _ _)]
    exact congrArg Except.ok (hmissing _ rfl)

end Day

end Agenda
