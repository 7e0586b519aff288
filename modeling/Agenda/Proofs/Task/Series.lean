import Agenda.Proofs.Rule.Anchor
import Agenda.Proofs.Task.Completion

/-!
# Doing a task again and again

A task with a rule that is done forgets the day from which it was first counted, and keeps only the
day it has moved to. Still it goes through the days of the series that counts from the first day.
Only the yearly rule of a leap day does not: the task is on the 28th of February from then on, while
the series comes back to every leap day.
-/

namespace Agenda

open Text

/-- The days that follow the anchor one after the other, all counted from the anchor. -/
def NextDate.series (anchor : Day) (expr : String) : Nat → Except NextDateError Day
  | 0 => .ok anchor
  | k + 1 =>
    match series anchor expr k with
    | .error e => .error e
    | .ok d => (evaluate d anchor.text expr).map fun n => n.occurrence.day

namespace Task

/-- The task when it has been done `k` times, unless it is gone by then. -/
def doneTimes (task : Task) : Nat → Except TaskError (Option Task)
  | 0 => .ok (some task)
  | k + 1 =>
    match task.doneTimes k with
    | .error e => .error e
    | .ok none => .ok none
    | .ok (some task) =>
      match task.completion with
      | .error e => .error e
      | .ok .delete => .ok none
      | .ok (.reschedule date) => .ok (some { task with date := date })

/-- The task on the day of a series, or with the error at which the series ends. -/
def onSeries (task : Task) : Except NextDateError Day → Except TaskError (Option Task)
  | .error e => .error (.repeatRule e)
  | .ok d => .ok (some { task with date := d.text })

variable {task : Task} {anchor d : Day} {rule : Rule} {k : Nat}

theorem series_eq (hrule : Rule.parse task.repeatRule = .ok rule)
    (hanchor : 0 ≤ anchor.year ∧ anchor.year ≤ 9999)
    (hd : NextDate.series anchor task.repeatRule k = .ok d) :
    NextDate.series anchor task.repeatRule (k + 1) =
      ((rule.nextOccurrence d anchor).map Occurrence.day).mapError .search := by
  rw [NextDate.series, hd]
  dsimp only
  rw [NextDate.evaluate_text hrule hanchor]
  cases rule.nextOccurrence d anchor <;> rfl

theorem continues_of_series (hrule : Rule.parse task.repeatRule = .ok rule)
    (hanchor : 0 ≤ anchor.year ∧ anchor.year ≤ 9999) (hkeeps : rule.KeepsDay anchor)
    (hd : NextDate.series anchor task.repeatRule k = .ok d) : rule.Continues anchor d := by
  cases k with
  | zero =>
    obtain rfl : anchor = d := Except.ok.inj hd
    exact .refl rule anchor
  | succ k =>
    cases hprevious : NextDate.series anchor task.repeatRule k with
    | error e =>
      rw [NextDate.series, hprevious] at hd
      cases hd
    | ok previous =>
      rw [series_eq hrule hanchor hprevious] at hd
      cases ho : rule.nextOccurrence previous anchor with
      | error e =>
        rw [ho] at hd
        cases hd
      | ok o =>
        rw [ho] at hd
        obtain rfl : o.day = d := Except.ok.inj hd
        exact (Rule.isNext_of_nextOccurrence ho).occurs.continues hkeeps

theorem doneTimes_succ (hrule : Rule.parse task.repeatRule = .ok rule)
    (hd : 0 ≤ d.year ∧ d.year ≤ 9999)
    (h : task.doneTimes k = .ok (some { task with date := d.text })) :
    task.doneTimes (k + 1) =
      task.onSeries (((rule.nextOccurrence d d).map Occurrence.day).mapError .search) := by
  have hcompletion : ({ task with date := d.text } : Task).completion = _ :=
    completion_eq hrule rfl hd
  rw [doneTimes, h]
  dsimp only
  rw [hcompletion]
  cases rule.nextOccurrence d d <;> rfl

/-- As long as the days are in the years of four digits, the task is on the day of the series, and
it cannot be done when the series ends. -/
theorem doneTimes_eq_onSeries (hrule : Rule.parse task.repeatRule = .ok rule)
    (hanchor : 0 ≤ anchor.year ∧ anchor.year ≤ 9999) (hdate : task.date = anchor.text)
    (hkeeps : rule.KeepsDay anchor) (k : Nat)
    (hbefore : ∀ j < k, ∀ d, NextDate.series anchor task.repeatRule j = .ok d → d.year ≤ 9999) :
    task.doneTimes k = task.onSeries (NextDate.series anchor task.repeatRule k) := by
  induction k with
  | zero =>
    rw [doneTimes, NextDate.series, onSeries, ← hdate]
  | succ k ih =>
    have hdone := ih fun j hj => hbefore j (Nat.lt_succ_of_lt hj)
    cases hseries : NextDate.series anchor task.repeatRule k with
    | error e =>
      rw [hseries] at hdone
      rw [doneTimes, hdone, NextDate.series, hseries]
      rfl
    | ok d =>
      rw [hseries] at hdone
      have hcontinues := continues_of_series hrule hanchor hkeeps hseries
      have hyear := Day.year_le_of_le hcontinues.le
      have hd : 0 ≤ d.year ∧ d.year ≤ 9999 :=
        ⟨hanchor.1.trans hyear, hbefore k (Nat.lt_succ_self k) d hseries⟩
      rw [doneTimes_succ hrule hd hdone, series_eq hrule hanchor hseries,
        hcontinues.nextOccurrence_eq]

theorem series_yearly (hrule : Rule.parse task.repeatRule = .ok .yearly)
    (hanchor : 0 ≤ anchor.year) (hlast : anchor.year + k ≤ 9999) :
    ∃ f, NextDate.series anchor task.repeatRule k = .ok f ∧
      f.date = anchor.date.addYears k := by
  induction k with
  | zero => exact ⟨anchor, rfl, anchor.date_isReal.addYears_zero.symm⟩
  | succ k ih =>
    obtain ⟨d, hd, hdate⟩ := ih (by omega)
    have hfar : anchor.year + (k + 1 : Nat) ≤ lastYear := hlast.trans (by decide)
    obtain ⟨o, ho, hodate⟩ := Rule.exists_nextOccurrence_yearly hdate hfar
    refine ⟨o.day, ?_, hodate⟩
    rw [series_eq hrule ⟨hanchor, by omega⟩ hd, ho]
    rfl

theorem doneTimes_succ_yearly (hrule : Rule.parse task.repeatRule = .ok .yearly)
    (hd : 0 ≤ d.year ∧ d.year ≤ 9999)
    (h : task.doneTimes k = .ok (some { task with date := d.text })) :
    ∃ c : Day, task.doneTimes (k + 1) = .ok (some { task with date := c.text }) ∧
      c.date = d.date.addYears 1 := by
  have hfar : d.year + (0 + 1 : Nat) ≤ lastYear := by
    have hlast : lastYear = 262142 := rfl
    omega
  obtain ⟨o, ho, hdate⟩ :=
    Rule.exists_nextOccurrence_yearly d.date_isReal.addYears_zero.symm hfar
  refine ⟨o.day, ?_, hdate⟩
  rw [doneTimes_succ hrule hd h, ho]
  rfl

theorem addYears_one_leapDate {year : Int} (h : isLeapYear year = true) :
    (leapDate year).addYears 1 = ⟨year + 1, 2, 28⟩ := by
  apply if_pos
  refine ⟨rfl, rfl, ?_⟩
  rw [isLeapYear_iff] at h
  rw [← Bool.not_eq_true, isLeapYear_iff]
  change ¬ ((year + 1) % 4 = 0 ∧ _)
  omega

theorem doneTimes_leapDay (hrule : Rule.parse task.repeatRule = .ok .yearly)
    (hanchor : 0 ≤ anchor.year) (hdate : task.date = anchor.text)
    (hleap : anchor.date = leapDate anchor.year) (hlast : anchor.year + (k + 1 : Nat) ≤ 9999) :
    ∃ c : Day, task.doneTimes (k + 1) = .ok (some { task with date := c.text }) ∧
      c.date = ⟨anchor.year + (k + 1 : Nat), 2, 28⟩ := by
  induction k with
  | zero =>
    have hreal := anchor.date_isReal
    rw [hleap, leapDate_isReal_iff] at hreal
    have hstart : task.doneTimes 0 = .ok (some { task with date := anchor.text }) := by
      rw [doneTimes, ← hdate]
    obtain ⟨c, hc, hcdate⟩ := doneTimes_succ_yearly hrule ⟨hanchor, by omega⟩ hstart
    refine ⟨c, hc, ?_⟩
    rw [hcdate, hleap, addYears_one_leapDate hreal]
    rfl
  | succ k ih =>
    obtain ⟨d, hd, hddate⟩ := ih (by omega)
    have hyear : d.year = anchor.year + (k + 1 : Nat) := congrArg Date.year hddate
    obtain ⟨c, hc, hcdate⟩ := doneTimes_succ_yearly hrule ⟨by omega, by omega⟩ hd
    refine ⟨c, hc, ?_⟩
    have hne : d.date ≠ leapDate d.date.year := by
      rw [hddate]
      intro heq
      injection heq with _ _ hday
      cases hday
    rw [hcdate, Date.addYears_of_ne_leapDate hne, hddate]
    simp only [Nat.cast_add, Nat.cast_one, add_assoc]

theorem addYears_leapDate (year k : Int) : (leapDate year).addYears k =
    if isLeapYear (year + k) then leapDate (year + k) else ⟨year + k, 2, 28⟩ := by
  unfold Date.addYears
  cases h : isLeapYear (year + k) with
  | true => simp [leapDate, h]
  | false => simp [leapDate, h]

/-- A task that is done again and again goes through the days of the series from its first day, and
fails where the series ends, with the same error. With the yearly rule of a leap day it is on the
28th of February of every later year, while the series is on every leap day. -/
theorem doneTimes_follows_series (hrule : Rule.parse task.repeatRule = .ok rule)
    (hanchor : 0 ≤ anchor.year ∧ anchor.year ≤ 9999) (hdate : task.date = anchor.text) :
    (rule.KeepsDay anchor → ∀ k,
      (∀ j < k, ∀ d, NextDate.series anchor task.repeatRule j = .ok d → d.year ≤ 9999) →
      task.doneTimes k = task.onSeries (NextDate.series anchor task.repeatRule k)) ∧
    (rule = .yearly → anchor.date = leapDate anchor.year → ∀ k : Nat, 1 ≤ k →
      anchor.year + k ≤ 9999 →
      ∃ c f : Day, task.doneTimes k = .ok (some { task with date := c.text }) ∧
        c.date = ⟨anchor.year + k, 2, 28⟩ ∧
        NextDate.series anchor task.repeatRule k = .ok f ∧
        f.date = if isLeapYear (anchor.year + k) then leapDate (anchor.year + k)
          else ⟨anchor.year + k, 2, 28⟩) := by
  constructor
  · intro hkeeps k hbefore
    exact doneTimes_eq_onSeries hrule hanchor hdate hkeeps k hbefore
  · rintro rfl hleap k hk hlast
    obtain ⟨j, rfl⟩ : ∃ j, k = j + 1 := ⟨k - 1, by omega⟩
    obtain ⟨c, hc, hcdate⟩ := doneTimes_leapDay hrule hanchor.1 hdate hleap hlast
    obtain ⟨f, hf, hfdate⟩ := series_yearly hrule hanchor.1 hlast
    refine ⟨c, f, hc, hcdate, hf, ?_⟩
    rw [hfdate, hleap, addYears_leapDate]

/-- Both go from the last of January 2024 to the last of March and on to the last of May. A yearly
task of the 29th of February 2024 is on the 28th in 2028, where the series is on the 29th. -/
theorem doneTimes_follows_series_2024 : ∃ (january march may leapDay : Day) (rent party : Task)
    (rule : Rule) (c f : Day),
    Day.ofDate? ⟨2024, 1, 31⟩ = some january ∧ rent.date = january.text ∧
    rent.repeatRule = "m 31" ∧ Rule.parse rent.repeatRule = .ok rule ∧ rule.KeepsDay january ∧
    march.date = ⟨2024, 3, 31⟩ ∧ NextDate.series january rent.repeatRule 1 = .ok march ∧
    rent.doneTimes 1 = .ok (some { rent with date := march.text }) ∧
    may.date = ⟨2024, 5, 31⟩ ∧ NextDate.series january rent.repeatRule 2 = .ok may ∧
    rent.doneTimes 2 = .ok (some { rent with date := may.text }) ∧
    Day.ofDate? ⟨2024, 2, 29⟩ = some leapDay ∧ party.date = leapDay.text ∧
    Rule.parse party.repeatRule = .ok .yearly ∧
    party.doneTimes 4 = .ok (some { party with date := c.text }) ∧ c.date = ⟨2028, 2, 28⟩ ∧
    NextDate.series leapDay party.repeatRule 4 = .ok f ∧ f.date = ⟨2028, 2, 29⟩ := by
  let january : Day := ⟨738916, by decide, by decide⟩
  let march : Day := ⟨738976, by decide, by decide⟩
  let may : Day := ⟨739037, by decide, by decide⟩
  let leapDay : Day := ⟨738945, by decide, by decide⟩
  let rent : Task := ⟨"1", january.text, "rent", "", "m 31"⟩
  let party : Task := ⟨"2", leapDay.text, "party", "", "y"⟩
  have hrule : Rule.parse rent.repeatRule = .ok (.monthly ⟨.twoPow 33 30, by decide⟩ none) := by
    decide
  have hkeeps : (Rule.monthly ⟨.twoPow 33 30, by decide⟩ none).KeepsDay january := .inl (by simp)
  have hmarch : NextDate.series january rent.repeatRule 1 = .ok march := by decide
  have hmay : NextDate.series january rent.repeatRule 2 = .ok may := by decide
  have hbefore : ∀ j < 2, ∀ d, NextDate.series january rent.repeatRule j = .ok d →
      d.year ≤ 9999 := by
    intro j hj d hd
    obtain rfl | rfl : j = 0 ∨ j = 1 := by omega
    · obtain rfl : january = d := Except.ok.inj hd
      decide
    · obtain rfl := Except.ok.inj (hmarch.symm.trans hd)
      decide
  have hrent := (doneTimes_follows_series hrule (by decide) rfl).1 hkeeps
  have hfirst := hrent 1 fun j hj => hbefore j (by omega)
  have hsecond := hrent 2 hbefore
  rw [hmarch] at hfirst
  rw [hmay] at hsecond
  obtain ⟨c, f, hc, hcdate, hf, hfdate⟩ :=
    (doneTimes_follows_series (show Rule.parse party.repeatRule = .ok .yearly by decide)
      (show 0 ≤ leapDay.year ∧ leapDay.year ≤ 9999 by decide) rfl).2 rfl (by decide) 4 (by decide)
      (by decide)
  exact ⟨january, march, may, leapDay, rent, party, _, c, f, by decide, rfl, rfl, hrule, hkeeps,
    by decide, hmarch, hfirst, by decide, hmay, hsecond, by decide, rfl, by decide, hc, hcdate, hf,
    hfdate⟩

end Task

end Agenda
