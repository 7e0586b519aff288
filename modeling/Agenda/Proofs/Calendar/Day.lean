import Agenda.Calendar.Day
import Mathlib.Tactic

/-!
# The days as an interval of numbers

The days of the calendar are the numbers from that of its first day to that of its last one, so a
question about earlier and later days is one about numbers. Real dates are ordered as their numbers
are, and a day is known by any real date of its number.
-/

namespace Agenda

theorem Date.IsReal.number_lt_of_year_lt {x y : Date} (hx : x.IsReal) (hy : y.IsReal)
    (h : x.year < y.year) : x.number < y.number := by
  have hend := hx.number_le_yearStart
  have hstart := hy.yearStart_lt_number
  have hyears : yearStart (x.year + 1) ≤ yearStart y.year := yearStart_mono h
  omega

namespace Day

theorem first_le_number (d : Day) : first.number ≤ d.number := d.first_le

theorem number_le_last (d : Day) : d.number ≤ last.number := d.le_last

theorem exists_number_eq {n : Int} (hfirst : first.number ≤ n) (hlast : n ≤ last.number) :
    ∃ d : Day, d.number = n :=
  ⟨⟨n, hfirst, hlast⟩, rfl⟩

theorem ofNumber?_eq_some_iff {n : Int} {d : Day} : ofNumber? n = some d ↔ d.number = n := by
  constructor
  · exact number_of_ofNumber?
  · rintro rfl
    exact d.ofNumber?_number

theorem ofNumber?_eq_none_iff {n : Int} :
    ofNumber? n = none ↔ n < first.number ∨ last.number < n := by
  constructor
  · intro h
    by_contra hrange
    obtain ⟨d, rfl⟩ := exists_number_eq (n := n) (by omega) (by omega)
    rw [ofNumber?_number] at h
    cases h
  · intro h
    cases hd : ofNumber? n with
    | none => rfl
    | some d =>
      have hn := number_of_ofNumber? hd
      have hfirst := d.first_le_number
      have hlast := d.number_le_last
      omega

theorem addDays?_eq_some_iff {d e : Day} {n : Nat} :
    d.addDays? n = some e ↔ e.number = d.number + n :=
  ofNumber?_eq_some_iff

theorem addDays?_eq_none_iff {d : Day} {n : Nat} :
    d.addDays? n = none ↔ last.number < d.number + n := by
  have hfirst := d.first_le_number
  rw [addDays?, ofNumber?_eq_none_iff]
  omega

theorem next?_eq_some_iff {d e : Day} : d.next? = some e ↔ e.number = d.number + 1 :=
  addDays?_eq_some_iff

theorem next?_eq_none_iff {d : Day} : d.next? = none ↔ last.number < d.number + 1 :=
  addDays?_eq_none_iff

@[simp] theorem number_max (a b : Day) : (max a b).number = max a.number b.number := by
  change (if a ≤ b then b else a).number = _
  split <;> rename_i h <;> rw [le_def] at h <;> omega

theorem max_eq_left {a b : Day} (h : b ≤ a) : max a b = a := by
  apply ext_number
  rw [number_max]
  exact Int.max_eq_left h

theorem date_eq_of_number_eq {d : Day} {x : Date} (hx : x.IsReal) (h : d.number = x.number) :
    d.date = x :=
  d.date_isReal.eq_of_number_eq hx (by rw [number_date, h])

theorem eq_of_date_eq {a b : Day} (h : a.date = b.date) : a = b := by
  apply ext_number
  rw [← number_date a, ← number_date b, h]

theorem lt_of_year_lt {a b : Day} (h : a.year < b.year) : a < b := by
  rw [lt_def, ← number_date a, ← number_date b]
  exact a.date_isReal.number_lt_of_year_lt b.date_isReal h

theorem year_le_of_le {a b : Day} (h : a ≤ b) : a.year ≤ b.year := by
  by_contra hlt
  exact absurd h (Int.not_le.mpr (lt_of_year_lt (not_le.mp hlt)))

theorem exists_date_eq {x : Date} (hx : x.IsReal) (hfirst : first.number ≤ x.number)
    (hlast : x.number ≤ last.number) : ∃ d : Day, d.number = x.number ∧ d.date = x := by
  obtain ⟨d, hd⟩ := exists_number_eq hfirst hlast
  exact ⟨d, hd, date_eq_of_number_eq hx hd⟩

theorem number_of_ofDate? {x : Date} {d : Day} (h : ofDate? x = some d) : d.number = x.number :=
  (isReal_of_ofDate? h).2.2.2

theorem year_of_ofDate? {x : Date} {d : Day} (h : ofDate? x = some d) : d.year = x.year :=
  congrArg Date.year (ofDate?_eq_some_iff.mp h)

theorem ofDate?_eq_none_iff {x : Date} :
    ofDate? x = none ↔ ¬ (x.IsReal ∧ firstYear ≤ x.year ∧ x.year ≤ lastYear) := by
  unfold ofDate?
  rw [dite_eq_right_iff]
  simp only [reduceCtorEq, imp_false]

end Day

end Agenda
