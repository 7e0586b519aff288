import Agenda.Proofs.Calendar.Month

/-!
# Leap days

How far apart the same dates of two years are depends on the leap days between them only. Two leap
days are four years apart, but eight around a century year without one, so from some days on the
next leap day is far away. No other day is moved to another day of its month by whole years.
-/

namespace Agenda

def leapDays (year : Int) : Nat := if isLeapYear year then 1 else 0

theorem leapDays_le_one (year : Int) : leapDays year ≤ 1 := by
  unfold leapDays
  split <;> omega

theorem yearStart_succ (year : Int) :
    yearStart (year + 1) = yearStart year + 365 + leapDays year := by
  rw [yearStart_add_one, daysThrough_twelve, leapDays]
  split <;> simp [add_assoc]

theorem monthLength_eq_add (year : Int) (month : Nat) :
    monthLength year month = commonMonthLength month + if month = 2 then leapDays year else 0 := by
  by_cases h : month = 2
  · subst h
    unfold leapDays
    rw [if_pos rfl, monthLength_eq]
    split <;> rfl
  · rw [if_neg h, commonMonthLength, monthLength_of_ne_two h year 1, add_zero]

theorem daysThrough_eq_add (year : Int) (month : Nat) :
    daysThrough year month = daysThrough 1 month + if 2 ≤ month then leapDays year else 0 := by
  induction month with
  | zero => rfl
  | succ month ih =>
    rw [daysThrough, daysThrough, ih, monthLength_eq_add, commonMonthLength]
    rcases Nat.lt_trichotomy (month + 1) 2 with h | h | h
    · rw [if_neg (by omega), if_neg (by omega), if_neg (by omega)]
      omega
    · rw [if_neg (by omega), if_pos h, if_pos (by omega)]
      omega
    · rw [if_pos (by omega), if_neg (by omega), if_pos (by omega)]
      omega

/-- The 29th of February, as a date of every year. -/
def leapDate (year : Int) : Date := ⟨year, 2, 29⟩

theorem leapDate_isReal_iff (year : Int) : (leapDate year).IsReal ↔ isLeapYear year = true := by
  unfold Date.IsReal leapDate monthLength
  cases isLeapYear year <;> simp

theorem number_leapDate (year : Int) : (leapDate year).number = yearStart year + 60 := by
  simp [leapDate, Date.number, daysThrough, monthLength]
  omega

theorem isLeapYear_iff (year : Int) :
    isLeapYear year = true ↔ year % 4 = 0 ∧ (year % 100 ≠ 0 ∨ year % 400 = 0) := by
  simp [isLeapYear]

namespace Date

variable {x : Date}

theorem eq_leapDate_iff : x = leapDate x.year ↔ x.month = 2 ∧ x.day = 29 := by
  obtain ⟨year, month, day⟩ := x
  simp [leapDate]

/-- Only a leap day is ever moved to another day of its month. -/
theorem addYears_of_ne_leapDate (h : x ≠ leapDate x.year) (k : Int) :
    x.addYears k = ⟨x.year + k, x.month, x.day⟩ := by
  rw [ne_eq, eq_leapDate_iff] at h
  apply if_neg
  rintro ⟨hmonth, hday, -⟩
  exact h ⟨hmonth, hday⟩

theorem addYears_of_leapDate (h : x = leapDate x.year) (k : Int) :
    x.addYears k = ⟨x.year + k, 2, if isLeapYear (x.year + k) then 29 else 28⟩ := by
  obtain ⟨hmonth, hday⟩ := eq_leapDate_iff.mp h
  unfold addYears
  cases hleap : isLeapYear (x.year + k) <;> simp [hmonth, hday]

theorem addYears_addYears (h : x ≠ leapDate x.year) (j k : Int) :
    (x.addYears j).addYears k = x.addYears (j + k) := by
  have hj := addYears_of_ne_leapDate h j
  have hne : x.addYears j ≠ leapDate (x.addYears j).year := by
    rw [ne_eq, eq_leapDate_iff] at h ⊢
    rwa [hj]
  rw [addYears_of_ne_leapDate hne, hj, addYears_of_ne_leapDate h, add_assoc]

@[simp] theorem IsReal.addYears_zero (hx : x.IsReal) : x.addYears 0 = x := by
  rw [hx.addYears_eq, add_zero, Nat.min_eq_left hx.2.2.2]

end Date

/-- From the day on, the next leap day is more than six years of 366 days away: a century year
without a leap day is near. -/
def InLeapGap (n : Int) : Prop :=
  ∃ century, century % 100 = 0 ∧ century % 400 ≠ 0 ∧ (leapDate (century - 4)).number ≤ n ∧
    n ≤ (⟨century - 2, 2, 22⟩ : Date).number

theorem yearStart_around_century {century : Int} (h : century % 100 = 0 ∧ century % 400 ≠ 0) :
    yearStart (century - 2) = yearStart (century - 4) + 731 ∧
      yearStart (century + 4) = yearStart (century - 4) + 2921 := by
  unfold yearStart
  omega

theorem number_le_gapEnd_iff {century : Int} (h : century % 100 = 0 ∧ century % 400 ≠ 0) (n : Int) :
    n ≤ (⟨century - 2, 2, 22⟩ : Date).number ↔
      n + 2196 < (leapDate (century + 4)).number := by
  have hcentury := yearStart_around_century h
  have hend : (⟨century - 2, 2, 22⟩ : Date).number = yearStart (century - 2) + 31 + 22 := rfl
  rw [number_leapDate, hend]
  omega

theorem InLeapGap.lt_number_leapDate {n year : Int} (h : InLeapGap n)
    (hleap : isLeapYear year = true) (hlt : n < (leapDate year).number) :
    n + 2196 < (leapDate year).number := by
  obtain ⟨century, hhundred, hcommon, hstart, hend⟩ := h
  rw [number_le_gapEnd_iff ⟨hhundred, hcommon⟩] at hend
  rw [isLeapYear_iff] at hleap
  rw [number_leapDate] at *
  have hafter : century - 4 < year := by
    by_contra hle
    have hmono : yearStart year ≤ yearStart (century - 4) := yearStart_mono (not_lt.mp hle)
    omega
  -- between the two leap days around the century year no year is a leap year
  have hnext : century + 4 ≤ year := by omega
  have hmono := yearStart_mono hnext
  omega

theorem exists_four_dvd_around (n : Int) :
    ∃ year, year % 4 = 0 ∧ yearStart (year - 4) + 60 ≤ n ∧ n < yearStart year + 60 := by
  have hlt := yearStart_yearOfNumber_lt n
  have hle := le_yearStart_yearOfNumber n
  generalize yearOfNumber n = year at hlt hle
  by_cases hn : n < yearStart (year - year % 4) + 60
  · refine ⟨year - year % 4, by omega, ?_, hn⟩
    have hsucc := yearStart_succ (year - year % 4 - 4)
    have hmono : yearStart (year - year % 4 - 4 + 1) ≤ yearStart year :=
      yearStart_mono (by omega)
    omega
  · refine ⟨year - year % 4 + 4, by omega, ?_, ?_⟩
    · rw [add_sub_cancel_right]
      omega
    · have hmono : yearStart (year + 1) ≤ yearStart (year - year % 4 + 4) :=
        yearStart_mono (by omega)
      omega

theorem exists_leapDate_le {n : Int} (h : ¬ InLeapGap n) :
    ∃ year, isLeapYear year = true ∧ n < (leapDate year).number ∧
      (leapDate year).number ≤ n + 2196 := by
  obtain ⟨year, hfour, hle, hlt⟩ := exists_four_dvd_around n
  by_cases hleap : isLeapYear year = true
  · refine ⟨year, hleap, ?_, ?_⟩
    · rwa [number_leapDate]
    · have hfours : yearStart year ≤ yearStart (year - 4) + 1461 := by
        unfold yearStart
        omega
      rw [number_leapDate]
      omega
  · have hcentury : year % 100 = 0 ∧ year % 400 ≠ 0 := by
      rw [isLeapYear_iff] at hleap
      omega
    have hgap : ¬ n ≤ (⟨year - 2, 2, 22⟩ : Date).number := by
      intro hend
      refine h ⟨year, hcentury.1, hcentury.2, ?_, hend⟩
      rwa [number_leapDate]
    rw [number_le_gapEnd_iff hcentury] at hgap
    have hmono : yearStart year ≤ yearStart (year + 4) := yearStart_mono (by omega)
    refine ⟨year + 4, ?_, ?_, by omega⟩
    · rw [isLeapYear_iff]
      omega
    · rw [number_leapDate]
      omega

end Agenda
