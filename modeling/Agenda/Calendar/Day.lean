import Agenda.Calendar.Gregorian

/-!
# Calendar days

A day is a number between those of the first and of the last day of the calendar, where the first
of January of the year 1 has the number 1. Its date is a view, and the dates that name a day are
those of the Gregorian rules whose year is between `firstYear` and `lastYear`.
-/

namespace Agenda

/-- A year, a month and a day of the month, whether or not there is such a day. -/
structure Date where
  year : Int
  month : Nat
  day : Nat
deriving DecidableEq, Repr

namespace Date

/-- The month and the day exist by the Gregorian rules. -/
def IsReal (x : Date) : Prop :=
  1 ≤ x.month ∧ x.month ≤ 12 ∧ 1 ≤ x.day ∧ x.day ≤ monthLength x.year x.month

instance (x : Date) : Decidable x.IsReal := by unfold IsReal; infer_instance

def number (x : Date) : Int := yearStart x.year + daysThrough x.year (x.month - 1) + x.day

theorem IsReal.yearStart_lt_number {x : Date} (h : x.IsReal) : yearStart x.year < x.number := by
  have := h.2.2.1
  unfold number
  omega

theorem IsReal.day_add_le {x : Date} (h : x.IsReal) :
    daysThrough x.year (x.month - 1) + x.day ≤ daysThrough x.year x.month := by
  obtain ⟨m, hm⟩ : ∃ m, x.month = m + 1 := ⟨x.month - 1, by have := h.1; omega⟩
  have := h.2.2.2
  rw [hm] at this ⊢
  simp only [Nat.add_sub_cancel, daysThrough]
  omega

theorem IsReal.number_le_yearStart {x : Date} (h : x.IsReal) :
    x.number ≤ yearStart (x.year + 1) := by
  have hday := h.day_add_le
  have hyear := daysThrough_mono x.year h.2.1
  rw [yearStart_add_one]
  unfold number
  omega

theorem IsReal.year_eq {x y : Date} (hx : x.IsReal) (hy : y.IsReal)
    (h : x.number = y.number) : x.year = y.year := by
  have hx₁ := hx.yearStart_lt_number
  have hx₂ := hx.number_le_yearStart
  have hy₁ := hy.yearStart_lt_number
  have hy₂ := hy.number_le_yearStart
  rcases Int.lt_trichotomy x.year y.year with hlt | heq | hlt
  · have := yearStart_mono (show x.year + 1 ≤ y.year by omega)
    omega
  · exact heq
  · have := yearStart_mono (show y.year + 1 ≤ x.year by omega)
    omega

theorem IsReal.eq_of_number_eq {x y : Date} (hx : x.IsReal) (hy : y.IsReal)
    (h : x.number = y.number) : x = y := by
  have hyear := hx.year_eq hy h
  have hx₁ := hx.day_add_le
  have hy₁ := hy.day_add_le
  obtain ⟨hx₂, -, hx₃, -⟩ := hx
  obtain ⟨hy₂, -, hy₃, -⟩ := hy
  unfold number at h
  obtain ⟨xy, xm, xd⟩ := x
  obtain ⟨yy, ym, yd⟩ := y
  dsimp only at *
  subst hyear
  have hmonth : xm = ym := by
    rcases Nat.lt_trichotomy xm ym with hlt | heq | hlt
    · have := daysThrough_mono xy (show xm ≤ ym - 1 by omega)
      omega
    · exact heq
    · have := daysThrough_mono xy (show ym ≤ xm - 1 by omega)
      omega
  subst hmonth
  rw [show xd = yd by omega]

end Date

def firstYear : Int := -262143

def lastYear : Int := 262142

/-- A day of the calendar, by its number. -/
structure Day where
  number : Int
  first_le : yearStart firstYear < number
  le_last : number ≤ yearStart (lastYear + 1)
deriving DecidableEq

namespace Day

theorem ext_number {a b : Day} (h : a.number = b.number) : a = b := by
  cases a
  cases b
  simp_all

instance : LE Day := ⟨fun a b => a.number ≤ b.number⟩

instance : LT Day := ⟨fun a b => a.number < b.number⟩

instance : DecidableLE Day := fun a b => inferInstanceAs (Decidable (a.number ≤ b.number))

instance : DecidableLT Day := fun a b => inferInstanceAs (Decidable (a.number < b.number))

instance : Max Day := ⟨fun a b => if a ≤ b then b else a⟩

theorem le_def {a b : Day} : a ≤ b ↔ a.number ≤ b.number := Iff.rfl

theorem lt_def {a b : Day} : a < b ↔ a.number < b.number := Iff.rfl

@[inline] def ofNumber? (number : Int) : Option Day :=
  if h : yearStart firstYear < number ∧ number ≤ yearStart (lastYear + 1) then
    some ⟨number, h.1, h.2⟩
  else none

theorem ofNumber?_number (d : Day) : ofNumber? d.number = some d := by
  unfold ofNumber?
  rw [dif_pos ⟨d.first_le, d.le_last⟩]

theorem number_of_ofNumber? {number : Int} {d : Day} (h : ofNumber? number = some d) :
    d.number = number := by
  unfold ofNumber? at h
  split at h <;> simp_all
  rw [← h]

def first : Day := ⟨yearStart firstYear + 1, by decide, by decide⟩

def last : Day := ⟨yearStart (lastYear + 1), by decide, by decide⟩

@[inline] def addDays? (d : Day) (n : Nat) : Option Day := ofNumber? (d.number + n)

def next? (d : Day) : Option Day := d.addDays? 1

def prev? (d : Day) : Option Day := ofNumber? (d.number - 1)

theorem number_of_addDays? {d e : Day} {n : Nat} (h : d.addDays? n = some e) :
    e.number = d.number + n := number_of_ofNumber? h

def date (d : Day) : Date :=
  let year := yearOfNumber d.number
  let place := monthAndDay year 1 (d.number - yearStart year).toNat 11
  ⟨year, place.1, place.2⟩

def year (d : Day) : Int := d.date.year

def month (d : Day) : Nat := d.date.month

def dayOfMonth (d : Day) : Nat := d.date.day

theorem date_isReal (d : Day) : d.date.IsReal := by
  have hlt := yearStart_yearOfNumber_lt d.number
  have hle := le_yearStart_yearOfNumber d.number
  rw [yearStart_add_one] at hle
  have hmonth := monthAndDay_month (yearOfNumber d.number) 1
    (d.number - yearStart (yearOfNumber d.number)).toNat 11
  have hday := monthAndDay_day (yearOfNumber d.number) 1
    (d.number - yearStart (yearOfNumber d.number)).toNat 11 (by omega)
    (by change 0 + _ ≤ daysThrough _ 12; omega) (by omega)
  exact ⟨hmonth.1, Nat.le_trans hmonth.2 (by omega), hday⟩

@[simp] theorem number_date (d : Day) : d.date.number = d.number := by
  have hlt := yearStart_yearOfNumber_lt d.number
  have h := daysThrough_monthAndDay (yearOfNumber d.number) 1
    (d.number - yearStart (yearOfNumber d.number)).toNat 11 (by omega)
  simp only [Nat.sub_self, daysThrough.eq_1, Nat.zero_add] at h
  simp only [Date.number, date]
  omega

theorem firstYear_le_year (d : Day) : firstYear ≤ d.year := by
  have h := d.date_isReal.number_le_yearStart
  rw [number_date] at h
  have hfirst := d.first_le
  by_cases hlt : d.date.year < firstYear
  · have := yearStart_mono (show d.date.year + 1 ≤ firstYear by omega)
    omega
  · exact Int.not_lt.mp hlt

theorem year_le_lastYear (d : Day) : d.year ≤ lastYear := by
  have h := d.date_isReal.yearStart_lt_number
  rw [number_date] at h
  have hlast := d.le_last
  by_cases hlt : lastYear < d.date.year
  · have := yearStart_mono (show lastYear + 1 ≤ d.date.year by omega)
    omega
  · exact Int.not_lt.mp hlt

/-- The day of a date, when the date is real and its year is one of the calendar. -/
def ofDate? (x : Date) : Option Day :=
  if h : x.IsReal ∧ firstYear ≤ x.year ∧ x.year ≤ lastYear then
    some ⟨x.number,
      Int.lt_of_le_of_lt (yearStart_mono h.2.1) h.1.yearStart_lt_number,
      Int.le_trans h.1.number_le_yearStart (yearStart_mono (by omega))⟩
  else none

theorem isReal_of_ofDate? {x : Date} {d : Day} (h : ofDate? x = some d) :
    x.IsReal ∧ firstYear ≤ x.year ∧ x.year ≤ lastYear ∧ d.number = x.number := by
  unfold ofDate? at h
  split at h
  · rename_i hx
    exact ⟨hx.1, hx.2.1, hx.2.2, by cases h; rfl⟩
  · cases h

@[simp] theorem ofDate?_date (d : Day) : ofDate? d.date = some d := by
  unfold ofDate?
  rw [dif_pos ⟨d.date_isReal, d.firstYear_le_year, d.year_le_lastYear⟩]
  exact congrArg some (ext_number d.number_date)

theorem ofDate?_eq_some_iff {x : Date} {d : Day} : ofDate? x = some d ↔ d.date = x := by
  constructor
  · intro h
    obtain ⟨hx, -, -, hnumber⟩ := isReal_of_ofDate? h
    exact d.date_isReal.eq_of_number_eq hx (by rw [number_date, hnumber])
  · intro h
    rw [← h, ofDate?_date]

theorem exists_ofDate?_eq_some {x : Date} (hx : x.IsReal) (hfirst : firstYear ≤ x.year)
    (hlast : x.year ≤ lastYear) : ∃ d, ofDate? x = some d := by
  unfold ofDate?
  rw [dif_pos ⟨hx, hfirst, hlast⟩]
  exact ⟨_, rfl⟩

/-- The weekday, counted from Monday, which is 0. -/
def weekday (d : Day) : Fin 7 := ⟨((d.number - 1) % 7).toNat, by omega⟩

/-- The ISO weekday, from 1 for Monday to 7 for Sunday. -/
def isoWeekday (d : Day) : Nat := d.weekday + 1

end Day

end Agenda
