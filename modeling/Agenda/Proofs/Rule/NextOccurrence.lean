import Agenda.Proofs.Rule.Scanning
import Agenda.Proofs.Rule.Stepping
import Agenda.Rule.Parser

/-!
# The answer of a search

A search answers the least occurrence after the reference, the one that a scan of every day from
the day after the anchor on finds. It fails because of the end of the calendar or, for a monthly
rule only, because of the horizon, and in no other way.
-/

namespace Agenda

open Search

namespace Rule

variable {rule : Rule} {reference anchor : Day} {o : Occurrence}

theorem weekly_scanEnd (days : Selection 7) (reference anchor : Day) :
    ScanEnd (fun d => weekdays.Lists days d.isoWeekday) (weekly days) weeklyHorizon
      (scanStart reference anchor) (scanStart reference anchor) 1 weeklyHorizon
      ((weekly days).nextOccurrence reference anchor) :=
  firstAdmitted_scanEnd (fun d => congrArg Except.ok (admitsWeekday_eq days d)) _ _ _ _

theorem monthly_scanEnd (days : Selection 33) (selected : Option (Selection 12))
    (reference anchor : Day) :
    ScanEnd (fun d => MatchesMonthly days selected d.date) (monthly days selected) monthlyHorizon
      (scanStart reference anchor) (scanStart reference anchor) 1 monthlyHorizon
      ((monthly days selected).nextOccurrence reference anchor) :=
  firstAdmitted_scanEnd (admitsMonthly_eq days selected) _ _ _ _

theorem isNext_of_nextOccurrence (h : rule.nextOccurrence reference anchor = .ok o) :
    rule.IsNext reference anchor o.day := by
  cases rule with
  | yearly =>
    obtain ⟨k, hk, hanswer⟩ := yearly_eq_answerAt reference anchor
    exact hk.isNext_of_answerAt (steps_yearly anchor) (hanswer.symm.trans h)
  | everyDays period =>
    obtain ⟨k, hk, hanswer⟩ := everyDays_eq_answerAt reference anchor period
    exact hk.isNext_of_answerAt (steps_everyDays period anchor) (hanswer.symm.trans h)
  | weekly days =>
    have hend := weekly_scanEnd days reference anchor
    rw [h] at hend
    exact hend.isNext fun _ => Iff.rfl
  | monthly days selected =>
    have hend := monthly_scanEnd days selected reference anchor
    rw [h] at hend
    exact hend.isNext fun _ => Iff.rfl

/-- The answer of a search is the least occurrence after the reference, and the test of every day
from the day after the anchor on finds the same day. -/
theorem nextOccurrence_least (h : rule.nextOccurrence reference anchor = .ok o) :
    rule.IsNext reference anchor o.day ∧ rule.dayByDay? reference anchor = some o.day :=
  have hnext := isNext_of_nextOccurrence h
  ⟨hnext, hnext.dayByDay?_eq⟩

/-- In 2100, which is no leap year, the last day but one of February is the 27th. -/
theorem nextOccurrence_least_february : ∃ days selected reference anchor o,
    Rule.parse "m -2 2" = .ok (monthly days selected) ∧
    Day.ofDate? ⟨1896, 3, 1⟩ = some anchor ∧ Day.ofDate? ⟨2100, 2, 26⟩ = some reference ∧
    (monthly days selected).nextOccurrence reference anchor = .ok o ∧
    (monthly days selected).IsNext reference anchor o.day ∧
    (monthly days selected).dayByDay? reference anchor = some o.day ∧
    o.day.date = ⟨2100, 2, 27⟩ := by
  have h : (monthly ⟨.twoPow 33 32, by decide⟩ (some ⟨.twoPow 12 1, by decide⟩)).nextOccurrence
      ⟨766701, by decide, by decide⟩ ⟨692195, by decide, by decide⟩ =
        .ok ⟨⟨766702, by decide, by decide⟩, ⟨766702, by decide, by decide⟩, 1, some 2196⟩ := by
    decide
  have hleast := nextOccurrence_least h
  exact ⟨_, _, _, _, _, by decide, by decide, by decide, h, hleast.1, hleast.2, by decide⟩

/-- The calendar ends before the search can answer. -/
def Overflows (reference anchor : Day) : Rule → Prop
  | monthly days selected =>
    Day.last.number < scanStart reference anchor ∨
      (NoneIn (fun d => MatchesMonthly days selected d.date) (scanStart reference anchor)
          (Day.last.number + 1) ∧
        Day.last.number ≤ scanStart reference anchor + 2195)
  | rule => ∀ d, rule.Occurs anchor d → ¬ reference < d

/-- The rule matches none of the days that the search tests, and there is a day after them. -/
def Exhausts (reference anchor : Day) : Rule → Prop
  | monthly days selected =>
    NoneIn (fun d => MatchesMonthly days selected d.date) (scanStart reference anchor)
        (scanStart reference anchor + 2196) ∧
      scanStart reference anchor + 2196 ≤ Day.last.number
  | _ => False

theorem exists_selected_weekday (days : Selection 7) (a : Int) :
    ∃ n, a ≤ n ∧ n < a + 7 ∧ ∀ d : Day, d.number = n → weekdays.Lists days d.isoWeekday := by
  obtain ⟨i, hi⟩ := days.exists_mem
  refine ⟨a + (i.val + 1 - a) % 7, by omega, by omega, ?_⟩
  intro d hd
  have hweekday : d.weekday = i := by
    apply Fin.ext
    simp only [Day.weekday]
    omega
  rw [← value_weekday, hweekday, Vocabulary.lists_value]
  exact hi

theorem first_lt_scanStart (reference anchor : Day) :
    Day.first.number < scanStart reference anchor := by
  have := anchor.first_le_number
  unfold scanStart
  omega

theorem weekly_le (days : Selection 7)
    (h : (weekly days).nextOccurrence reference anchor = .ok o) :
    o.day.number ≤ max anchor.number reference.number + 7 := by
  have hnext := isNext_of_nextOccurrence h
  have hfirst := first_lt_scanStart reference anchor
  have hlast := o.day.number_le_last
  obtain ⟨n, hle, hlt, hlists⟩ := exists_selected_weekday days (scanStart reference anchor)
  by_cases hn : n ≤ Day.last.number
  · obtain ⟨d, hd⟩ : ∃ d : Day, d.number = n := Day.exists_number_eq (by omega) hn
    have hafter : anchor < d ∧ reference < d := lt_of_scanStart_le (by omega)
    have hle := hnext.le_of_occurs d ⟨hafter.1, hlists d hd⟩ hafter.2
    rw [Day.le_def] at hle
    unfold scanStart at hlt
    omega
  · unfold scanStart at hlt
    omega

/-- A scan of the rest of the calendar fails just when no occurrence is later than the
reference. -/
theorem noneIn_rest_iff {p : Day → Prop} (hoccurs : ∀ d, rule.Occurs anchor d ↔ anchor < d ∧ p d) :
    NoneIn p (scanStart reference anchor) (Day.last.number + 1) ↔
      ∀ d, rule.Occurs anchor d → ¬ reference < d := by
  constructor
  · intro hnone d hd hlt
    obtain ⟨hanchor, hp⟩ := (hoccurs d).mp hd
    have hlast := d.number_le_last
    exact hnone d (scanStart_le hanchor hlt) (by omega) hp
  · intro hnone d hle _ hp
    obtain ⟨hanchor, hreference⟩ := lt_of_scanStart_le hle
    exact hnone d ((hoccurs d).mpr ⟨hanchor, hp⟩) hreference

theorem weekly_eq_error_iff (days : Selection 7) {e : SearchError} :
    (weekly days).nextOccurrence reference anchor = .error e ↔
      e = .calendarOverflow (weekly days) ∧
        ∀ d, (weekly days).Occurs anchor d → ¬ reference < d := by
  have hfirst := first_lt_scanStart reference anchor
  obtain ⟨n, hle, hlt, hlists⟩ := exists_selected_weekday days (scanStart reference anchor)
  -- within the horizon, which is longer than a week, a scan fails for the end of the calendar only
  have hweek : ∀ b, scanStart reference anchor + weeklyHorizon ≤ b → b ≤ Day.last.number + 1 →
      ¬ NoneIn (fun d => weekdays.Lists days d.isoWeekday) (scanStart reference anchor) b := by
    intro b hb hlast hnone
    unfold weeklyHorizon at hb
    obtain ⟨d, hd⟩ : ∃ d : Day, d.number = n := Day.exists_number_eq (by omega) (by omega)
    exact hnone d (by omega) (by omega) (hlists d hd)
  rw [(weekly_scanEnd days reference anchor).eq_error_iff, ← noneIn_rest_iff fun _ => Iff.rfl]
  constructor
  · rintro (⟨rfl, -, hnone⟩ | ⟨-, hlast, hnone⟩)
    · exact ⟨rfl, hnone⟩
    · exact absurd hnone (hweek _ le_rfl (by omega))
  · rintro ⟨rfl, hnone⟩
    refine .inl ⟨rfl, ?_, hnone⟩
    by_contra hlast
    exact hweek _ (by omega) le_rfl hnone

theorem monthly_eq_error_iff (days : Selection 33) (selected : Option (Selection 12))
    {e : SearchError} :
    (monthly days selected).nextOccurrence reference anchor = .error e ↔
      (e = .calendarOverflow (monthly days selected) ∧
        (monthly days selected).Overflows reference anchor) ∨
      (e = .horizonExhausted (monthly days selected) monthlyHorizon ∧
        (monthly days selected).Exhausts reference anchor) := by
  rw [(monthly_scanEnd days selected reference anchor).eq_error_iff]
  have hhorizon : (monthlyHorizon : Int) = 2196 := rfl
  simp only [Overflows, Exhausts, hhorizon]
  constructor
  · rintro (⟨rfl, hlast, hnone⟩ | ⟨rfl, hlast, hnone⟩)
    · exact .inl ⟨rfl, .inr ⟨hnone, by omega⟩⟩
    · exact .inr ⟨rfl, hnone, hlast⟩
  · rintro (⟨rfl, hlast | ⟨hnone, hlast⟩⟩ | ⟨rfl, hnone, hlast⟩)
    · refine .inl ⟨rfl, by omega, ?_⟩
      intro d hle
      omega
    · exact .inl ⟨rfl, by omega, hnone⟩
    · exact .inr ⟨rfl, hlast, hnone⟩

theorem nextOccurrence_eq_error_iff {e : SearchError} :
    rule.nextOccurrence reference anchor = .error e ↔
      (e = .calendarOverflow rule ∧ rule.Overflows reference anchor) ∨
        (e = .horizonExhausted rule monthlyHorizon ∧ rule.Exhausts reference anchor) := by
  cases rule with
  | yearly =>
    obtain ⟨k, hk, hanswer⟩ := yearly_eq_answerAt reference anchor
    simp only [nextOccurrence, hanswer, hk.answerAt_eq_error_iff (steps_yearly anchor), Overflows,
      Exhausts, and_false, or_false]
  | everyDays period =>
    obtain ⟨k, hk, hanswer⟩ := everyDays_eq_answerAt reference anchor period
    simp only [nextOccurrence, hanswer, hk.answerAt_eq_error_iff (steps_everyDays period anchor),
      Overflows, Exhausts, and_false, or_false]
  | weekly days =>
    simp only [weekly_eq_error_iff, Overflows, Exhausts, and_false, or_false]
  | monthly days selected => exact monthly_eq_error_iff days selected

theorem exists_nextOccurrence_iff :
    (∃ o, rule.nextOccurrence reference anchor = .ok o) ↔
      ¬ rule.Overflows reference anchor ∧ ¬ rule.Exhausts reference anchor := by
  constructor
  · rintro ⟨o, ho⟩
    constructor
    · intro hover
      have h := nextOccurrence_eq_error_iff.mpr (.inl ⟨rfl, hover⟩)
      rw [ho] at h
      cases h
    · intro hexhaust
      have h := nextOccurrence_eq_error_iff.mpr (.inr ⟨rfl, hexhaust⟩)
      rw [ho] at h
      cases h
  · rintro ⟨hover, hexhaust⟩
    cases h : rule.nextOccurrence reference anchor with
    | ok o => exact ⟨o, rfl⟩
    | error e =>
      rcases nextOccurrence_eq_error_iff.mp h with ⟨-, h⟩ | ⟨-, h⟩
      · exact absurd h hover
      · exact absurd h hexhaust

/-- A search fails exactly when the calendar ends too early or the horizon is exhausted, with the
error that says so, and answers a day otherwise. A weekly search answers within a week. -/
theorem nextOccurrence_fails_exactly (rule : Rule) (reference anchor : Day) :
    (∀ e, rule.nextOccurrence reference anchor = .error e ↔
      (e = .calendarOverflow rule ∧ rule.Overflows reference anchor) ∨
        (e = .horizonExhausted rule monthlyHorizon ∧ rule.Exhausts reference anchor)) ∧
    ((∃ o, rule.nextOccurrence reference anchor = .ok o) ↔
      ¬ rule.Overflows reference anchor ∧ ¬ rule.Exhausts reference anchor) ∧
    ∀ days o, rule = weekly days → rule.nextOccurrence reference anchor = .ok o →
      o.day.number ≤ max anchor.number reference.number + 7 := by
  refine ⟨fun _ => nextOccurrence_eq_error_iff, exists_nextOccurrence_iff, ?_⟩
  rintro days o rfl h
  exact weekly_le days h

/-- From a Monday to the next one it takes the whole week, and behind the last day of the calendar
there is no Monday. -/
theorem nextOccurrence_fails_exactly_monday : ∃ days reference o,
    Rule.parse "w 1" = .ok (weekly days) ∧ Day.ofDate? ⟨2024, 1, 15⟩ = some reference ∧
    (weekly days).nextOccurrence reference reference = .ok o ∧ o.day.date = ⟨2024, 1, 22⟩ ∧
    o.day.number ≤ max reference.number reference.number + 7 ∧
    (weekly days).nextOccurrence Day.last Day.last = .error (.calendarOverflow (weekly days)) ∧
    (weekly days).Overflows Day.last Day.last := by
  have h : (weekly ⟨.twoPow 7 0, by decide⟩).nextOccurrence ⟨738900, by decide, by decide⟩
      ⟨738900, by decide, by decide⟩ =
        .ok ⟨⟨738907, by decide, by decide⟩, ⟨738901, by decide, by decide⟩, 7, some 1830⟩ := by
    decide
  have hlast : (weekly ⟨.twoPow 7 0, by decide⟩).nextOccurrence Day.last Day.last =
      .error (.calendarOverflow (weekly ⟨.twoPow 7 0, by decide⟩)) := by
    decide
  have hweek := (nextOccurrence_fails_exactly _ _ _).2.2 _ _ rfl h
  have hover := ((nextOccurrence_fails_exactly _ _ _).1 _).mp hlast
  refine ⟨_, _, _, by decide, by decide, h, by decide, hweek, hlast, ?_⟩
  rcases hover with ⟨-, hover⟩ | ⟨herror, -⟩
  · exact hover
  · cases herror

end Rule

end Agenda
