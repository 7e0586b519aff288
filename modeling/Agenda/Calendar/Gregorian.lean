/-!
# The Gregorian rules

Leap years, the lengths of months, and the count of days before a year and before a month, for
every year of either sign. The year 0 exists and is a leap year.
-/

namespace Agenda

def isLeapYear (year : Int) : Bool :=
  year % 4 == 0 && (year % 100 != 0 || year % 400 == 0)

/-- The days of a month of the year; meaningful for the months 1 to 12. -/
def monthLength (year : Int) : Nat → Nat
  | 2 => if isLeapYear year then 29 else 28
  | 4 | 6 | 9 | 11 => 30
  | _ => 31

theorem monthLength_pos (year : Int) (month : Nat) : 0 < monthLength year month := by
  unfold monthLength
  split <;> (try split) <;> omega

theorem monthLength_le (year : Int) (month : Nat) : monthLength year month ≤ 31 := by
  unfold monthLength
  split <;> (try split) <;> omega

/-- The days of the first `month` months of the year. -/
def daysThrough (year : Int) : Nat → Nat
  | 0 => 0
  | month + 1 => daysThrough year month + monthLength year (month + 1)

/-- The days before the first of January, when the first of January of the year 1 is day 1. -/
def yearStart (year : Int) : Int :=
  365 * (year - 1) + (year - 1) / 4 - (year - 1) / 100 + (year - 1) / 400

theorem daysThrough_twelve (year : Int) :
    daysThrough year 12 = if isLeapYear year then 366 else 365 := by
  simp only [daysThrough, monthLength]
  split <;> rfl

theorem yearStart_add_one (year : Int) :
    yearStart (year + 1) = yearStart year + daysThrough year 12 := by
  rw [daysThrough_twelve]
  unfold yearStart isLeapYear
  split <;> rename_i h <;>
    simp only [Bool.and_eq_true, Bool.or_eq_true, beq_iff_eq, bne_iff_ne, ne_eq] at h <;> omega

theorem yearStart_mono {a b : Int} (h : a ≤ b) : yearStart a ≤ yearStart b := by
  unfold yearStart
  omega

theorem daysThrough_mono (year : Int) {m n : Nat} (h : m ≤ n) :
    daysThrough year m ≤ daysThrough year n := by
  induction h with
  | refl => exact Nat.le_refl _
  | step _ ih => exact Nat.le_trans ih (Nat.le_add_right _ _)

/-- The year that holds a day: an estimate by the mean length of a year, set right by one. -/
def yearOfNumber (number : Int) : Int :=
  let estimate := (400 * (number - 1)) / 146097 + 1
  if number ≤ yearStart estimate then estimate - 1
  else if yearStart (estimate + 1) < number then estimate + 1
  else estimate

theorem yearStart_yearOfNumber_lt (number : Int) : yearStart (yearOfNumber number) < number := by
  simp only [yearOfNumber]
  split
  · unfold yearStart at *; omega
  · split <;> omega

theorem le_yearStart_yearOfNumber (number : Int) :
    number ≤ yearStart (yearOfNumber number + 1) := by
  simp only [yearOfNumber]
  split
  · rw [Int.sub_add_cancel]; assumption
  · split
    · unfold yearStart at *; omega
    · omega

/-- The month and the day of month of the `day`-th day counted from the first of `month`, when
`left` months follow `month` in the year. -/
def monthAndDay (year : Int) (month day : Nat) : Nat → Nat × Nat
  | 0 => (month, day)
  | left + 1 =>
    if day ≤ monthLength year month then (month, day)
    else monthAndDay year (month + 1) (day - monthLength year month) left

theorem monthAndDay_month (year : Int) (month day left : Nat) :
    month ≤ (monthAndDay year month day left).1 ∧
      (monthAndDay year month day left).1 ≤ month + left := by
  induction left generalizing month day with
  | zero => simp [monthAndDay]
  | succ left ih =>
    unfold monthAndDay
    split
    · simp
    · have := ih (month + 1) (day - monthLength year month)
      omega

theorem monthAndDay_day (year : Int) (month day left : Nat) (hday : 1 ≤ day)
    (hle : daysThrough year (month - 1) + day ≤ daysThrough year (month + left))
    (hmonth : 1 ≤ month) :
    1 ≤ (monthAndDay year month day left).2 ∧
      (monthAndDay year month day left).2 ≤
        monthLength year (monthAndDay year month day left).1 := by
  induction left generalizing month day with
  | zero =>
    obtain ⟨m, rfl⟩ : ∃ m, month = m + 1 := ⟨month - 1, by omega⟩
    simp only [Nat.add_sub_cancel, daysThrough] at hle
    exact ⟨hday, by simp only [monthAndDay]; omega⟩
  | succ left ih =>
    unfold monthAndDay
    split
    · exact ⟨hday, by assumption⟩
    · obtain ⟨m, rfl⟩ : ∃ m, month = m + 1 := ⟨month - 1, by omega⟩
      apply ih _ _ (by omega) _ (by omega)
      have : m + 1 + (left + 1) = m + 1 + 1 + left := by omega
      rw [this] at hle
      simp only [Nat.add_sub_cancel, daysThrough] at hle ⊢
      omega

theorem daysThrough_monthAndDay (year : Int) (month day left : Nat)
    (hmonth : 1 ≤ month) :
    daysThrough year ((monthAndDay year month day left).1 - 1) +
      (monthAndDay year month day left).2 = daysThrough year (month - 1) + day := by
  induction left generalizing month day with
  | zero => simp [monthAndDay]
  | succ left ih =>
    unfold monthAndDay
    split
    · rfl
    · rw [ih _ _ (by omega)]
      obtain ⟨m, rfl⟩ : ∃ m, month = m + 1 := ⟨month - 1, by omega⟩
      simp only [Nat.add_sub_cancel, daysThrough]
      omega

end Agenda
