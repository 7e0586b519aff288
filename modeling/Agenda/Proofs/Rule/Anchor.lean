import Agenda.Proofs.Calendar.LeapDay
import Agenda.Proofs.Rule.NextOccurrence

/-!
# Counting from a later day

A rule that is counted from one of its occurrences falls due on the same later days as when it is
counted from the anchor, and then the search after this occurrence answers the same day or fails
with the same error. The exception is the yearly rule of a leap day: counted from an occurrence on
the 28th of February it stays on the 28th.
-/

namespace Agenda

open Search

namespace Rule

variable {rule : Rule} {reference anchor d e : Day} {k : Nat}

theorem IsNext.unique (hd : rule.IsNext reference anchor d) (he : rule.IsNext reference anchor e) :
    d = e := by
  have hde := hd.le_of_occurs e he.occurs he.reference_lt
  have hed := he.le_of_occurs d hd.occurs hd.reference_lt
  rw [Day.le_def] at hde hed
  exact Day.ext_number (by omega)

/-- After `d` the rule falls due on the same days whether it is counted from the anchor or
from `d`. -/
structure Continues (rule : Rule) (anchor d : Day) : Prop where
  le : anchor ≤ d
  occurs_iff : ∀ e, d < e → (rule.Occurs anchor e ↔ rule.Occurs d e)

theorem Continues.refl (rule : Rule) (d : Day) : rule.Continues d d :=
  ⟨Int.le_refl _, fun _ _ => Iff.rfl⟩

/-- The anchor of a yearly rule is no leap day. -/
def KeepsDay (anchor : Day) (rule : Rule) : Prop :=
  rule ≠ yearly ∨ anchor.date ≠ leapDate anchor.year

theorem occurs_yearly_iff_of_occurs (h : yearly.Occurs anchor d)
    (hne : anchor.date ≠ leapDate anchor.year) (hde : d < e) :
    yearly.Occurs anchor e ↔ yearly.Occurs d e := by
  obtain ⟨hyear, hdate⟩ := occurs_yearly_iff.mp h
  have hdates : d.date.addYears (e.year - d.year) =
      anchor.date.addYears (e.year - anchor.year) := by
    rw [hdate, Date.addYears_addYears hne]
    congr 1
    omega
  rw [occurs_yearly_iff, occurs_yearly_iff, hdates]
  constructor
  · rintro ⟨-, he⟩
    refine ⟨?_, he⟩
    -- a later day of the same year would be the same day
    by_contra hle
    have hyears := Day.year_le_of_le (Int.le_of_lt hde)
    have hsame : e.year = d.year := by omega
    rw [hsame, ← hdate] at he
    rw [Day.eq_of_date_eq he] at hde
    exact absurd hde (Int.lt_irrefl _)
  · rintro ⟨hyear', he⟩
    exact ⟨by omega, he⟩

theorem occurs_everyDays_iff_of_occurs {period : Period} (h : (everyDays period).Occurs anchor d)
    (hde : d < e) : (everyDays period).Occurs anchor e ↔ (everyDays period).Occurs d e := by
  obtain ⟨had, hperiod⟩ := occurs_everyDays_iff.mp h
  have hae : anchor < e := Int.lt_trans had hde
  have hsplit : e.number - anchor.number =
      (e.number - d.number) + (d.number - anchor.number) := by
    omega
  rw [occurs_everyDays_iff, occurs_everyDays_iff, hsplit, Int.add_emod, hperiod, add_zero,
    Int.emod_emod]
  simp only [hae, hde, true_and]

theorem Occurs.continues (h : rule.Occurs anchor d) (hkeeps : rule.KeepsDay anchor) :
    rule.Continues anchor d := by
  have had := h.anchor_lt
  refine ⟨Int.le_of_lt had, ?_⟩
  intro e hde
  have hae : anchor < e := Int.lt_trans had hde
  cases rule with
  | yearly =>
    have hne := hkeeps.resolve_left fun hyearly => hyearly rfl
    exact occurs_yearly_iff_of_occurs h hne hde
  | everyDays period => exact occurs_everyDays_iff_of_occurs h hde
  | weekly days => simp only [Occurs, hae, hde, true_and]
  | monthly days selected => simp only [Occurs, hae, hde, true_and]

theorem Continues.isNext_iff (h : rule.Continues anchor d) :
    rule.IsNext d anchor e ↔ rule.IsNext d d e := by
  constructor
  · rintro ⟨hoccurs, hlt, hle⟩
    exact ⟨(h.occurs_iff e hlt).mp hoccurs, hlt,
      fun x hx hdx => hle x ((h.occurs_iff x hdx).mpr hx) hdx⟩
  · rintro ⟨hoccurs, hlt, hle⟩
    exact ⟨(h.occurs_iff e hlt).mpr hoccurs, hlt,
      fun x hx hdx => hle x ((h.occurs_iff x hdx).mp hx) hdx⟩

theorem scanStart_eq_of_le (h : anchor ≤ d) : scanStart d anchor = scanStart d d := by
  rw [Day.le_def] at h
  unfold scanStart
  omega

theorem Continues.overflows_iff (h : rule.Continues anchor d) :
    rule.Overflows d anchor ↔ rule.Overflows d d := by
  have hnone : (∀ e, rule.Occurs anchor e → ¬ d < e) ↔ ∀ e, rule.Occurs d e → ¬ d < e := by
    constructor
    · exact fun hall e he hlt => hall e ((h.occurs_iff e hlt).mpr he) hlt
    · exact fun hall e he hlt => hall e ((h.occurs_iff e hlt).mp he) hlt
  cases rule with
  | yearly => exact hnone
  | everyDays period => exact hnone
  | weekly days => exact hnone
  | monthly days selected => simp only [Overflows, scanStart_eq_of_le h.le]

theorem Continues.exhausts_iff (h : rule.Continues anchor d) :
    rule.Exhausts d anchor ↔ rule.Exhausts d d := by
  cases rule with
  | monthly days selected => simp only [Exhausts, scanStart_eq_of_le h.le]
  | _ => exact Iff.rfl

/-- From an occurrence on, the search counted from it answers as the one counted from the
anchor. -/
theorem Continues.nextOccurrence_eq (h : rule.Continues anchor d) :
    (rule.nextOccurrence d anchor).map Occurrence.day =
      (rule.nextOccurrence d d).map Occurrence.day := by
  have herror : ∀ e, rule.nextOccurrence d anchor = .error e ↔
      rule.nextOccurrence d d = .error e := by
    intro e
    rw [nextOccurrence_eq_error_iff, nextOccurrence_eq_error_iff, h.overflows_iff, h.exhausts_iff]
  cases hfixed : rule.nextOccurrence d anchor with
  | error e => rw [(herror e).mp hfixed]
  | ok o =>
    cases hmoved : rule.nextOccurrence d d with
    | error e => cases hfixed.symm.trans ((herror e).mpr hmoved)
    | ok o' =>
      have hnext := h.isNext_iff.mp (isNext_of_nextOccurrence hfixed)
      exact congrArg Except.ok (hnext.unique (isNext_of_nextOccurrence hmoved))

theorem isNext_yearly (hd : d.date = anchor.date.addYears k)
    (he : e.date = anchor.date.addYears (k + 1 : Nat)) : yearly.IsNext d anchor e := by
  have hyear : d.year = anchor.year + k := (congrArg Date.year hd).trans (Date.year_addYears _ _)
  have hyear' : e.year = anchor.year + (k + 1 : Nat) :=
    (congrArg Date.year he).trans (Date.year_addYears _ _)
  refine ⟨⟨k + 1, by omega, he⟩, Day.lt_of_year_lt (by omega), ?_⟩
  rintro x ⟨j, -, hx⟩ hdx
  have hyearx : x.year = anchor.year + j := (congrArg Date.year hx).trans (Date.year_addYears _ _)
  rcases Nat.lt_trichotomy j (k + 1) with hj | rfl | hj
  · -- the occurrences of the first `k` years are not later than `d`
    rcases Nat.lt_succ_iff_lt_or_eq.mp hj with hj | rfl
    · have hxd : x < d := Day.lt_of_year_lt (by omega)
      exact absurd (Int.lt_trans hdx hxd) (Int.lt_irrefl _)
    · rw [Day.eq_of_date_eq (hx.trans hd.symm)] at hdx
      exact absurd hdx (Int.lt_irrefl _)
  · rw [Day.eq_of_date_eq (he.trans hx.symm)]
    exact Int.le_refl _
  · exact Int.le_of_lt (Day.lt_of_year_lt (by omega))

theorem exists_nextOccurrence_yearly (hd : d.date = anchor.date.addYears k)
    (hlast : anchor.year + (k + 1 : Nat) ≤ lastYear) :
    ∃ o, yearly.nextOccurrence d anchor = .ok o ∧
      o.day.date = anchor.date.addYears (k + 1 : Nat) := by
  have hfirst := anchor.firstYear_le_year
  obtain ⟨e, he⟩ := Day.exists_ofDate?_eq_some (anchor.date_isReal.addYears (k + 1 : Nat))
    (by rw [Date.year_addYears]; change firstYear ≤ anchor.year + _; omega)
    (by rw [Date.year_addYears]; exact hlast)
  have hdate := Day.ofDate?_eq_some_iff.mp he
  have hnext := isNext_yearly hd hdate
  have hanswers : ∃ o, yearly.nextOccurrence d anchor = .ok o := by
    rw [exists_nextOccurrence_iff]
    exact ⟨fun hover => hover e hnext.occurs hnext.reference_lt, id⟩
  obtain ⟨o, ho⟩ := hanswers
  refine ⟨o, ho, ?_⟩
  rw [(isNext_of_nextOccurrence ho).unique hnext, hdate]

end Rule

end Agenda
