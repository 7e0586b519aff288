import Agenda.Proofs.Rule.NextOccurrence

/-!
# Searches without their loops

How many steps a yearly or daily search takes is said by arithmetic: by the difference of the years,
or by the whole periods between anchor and reference. With the number of steps the first candidate
and the day are places of the rule, so a search that may step through the whole calendar is one
division. A weekly or monthly search has tested the days from its first candidate on, one for each
step.
-/

namespace Agenda

namespace Search

variable {place : Nat → Option Day} {reference anchor : Day} {j k : Nat} {o : Occurrence}

theorem StopsAt.unique (hj : StopsAt place reference j) (hk : StopsAt place reference k) :
    j = k := by
  have hle : ∀ {a b}, StopsAt place reference a → StopsAt place reference b → b ≤ a := by
    intro a b ha hb
    by_contra hlt
    obtain ⟨d, hd, hle⟩ := hb.passed a ha.one_le (Nat.not_le.mp hlt)
    exact absurd hle (Int.not_le.mpr (ha.reference_lt d hd))
  exact Nat.le_antisymm (hle hk hj) (hle hj hk)

theorem answerAt_eq_ok_iff {rule : Rule} (hone : 1 ≤ k) (hsteps : Steps rule anchor place) :
    answerAt rule place k = .ok o ↔ place 1 = some o.trace.firstCandidate ∧
      place k = some o.day ∧ o.trace.steps = k ∧ o.trace.horizon = none := by
  obtain ⟨day, first, steps, horizon⟩ := o
  unfold answerAt
  cases hk : place k with
  | none => cases place 1 <;> simp
  | some d =>
    cases hstart : place 1 with
    | none =>
      rw [hsteps.eq_none hone hstart] at hk
      cases hk
    | some start =>
      simp only [Except.ok.injEq, Occurrence.mk.injEq, Trace.mk.injEq, Option.some.injEq]
      constructor
      · rintro ⟨rfl, rfl, rfl, rfl⟩
        exact ⟨rfl, rfl, rfl, rfl⟩
      · rintro ⟨rfl, rfl, rfl, rfl⟩
        exact ⟨rfl, rfl, rfl, rfl⟩

theorem stopsAt_one {rule : Rule} (hsteps : Steps rule anchor place) (hle : reference ≤ anchor) :
    StopsAt place reference 1 := by
  refine ⟨Nat.le_refl 1, passed_one place reference, ?_⟩
  intro d hd
  have hoccurs : rule.Occurs anchor d := (hsteps.occurs_iff d).mpr ⟨1, Nat.le_refl 1, hd⟩
  exact Int.lt_of_le_of_lt hle hoccurs.anchor_lt

/-- One more than the whole periods from the anchor to the reference, and at least one. -/
def periodSteps (reference anchor : Day) (period : Period) : Int :=
  max 1 ((reference.number - anchor.number) / period.days + 1)

/-- What a daily search answers, said by a division. -/
structure IsDailyTrace (reference anchor : Day) (period : Period) (o : Occurrence) : Prop where
  steps_eq : (o.trace.steps : Int) = periodSteps reference anchor period
  firstCandidate_eq : anchor.addDays? period.days = some o.trace.firstCandidate
  day_eq : anchor.addDays? (o.trace.steps * period.days) = some o.day
  horizon_eq : o.trace.horizon = none

theorem mul_le_sub_iff {period : Period} {i : Int} :
    i * period.days ≤ reference.number - anchor.number ↔
      i ≤ (reference.number - anchor.number) / period.days := by
  have hpos : (0 : Int) < period.days := by exact_mod_cast period.one_le
  exact (Int.le_ediv_iff_mul_le hpos).symm

theorem stopsAt_periodSteps {period : Period}
    (hk : (k : Int) = periodSteps reference anchor period) :
    StopsAt (periodPlace period anchor) reference k := by
  unfold periodSteps at hk
  refine ⟨by omega, ?_, ?_⟩
  · intro j hj hlt
    have hle : (j : Int) * period.days ≤ reference.number - anchor.number :=
      mul_le_sub_iff.mpr (by omega)
    have hfirst := anchor.first_le_number
    have hlast := reference.number_le_last
    have hnonneg : (0 : Int) ≤ j * period.days := by positivity
    obtain ⟨d, hd⟩ : ∃ d : Day, d.number = anchor.number + j * period.days :=
      Day.exists_number_eq (by omega) (by omega)
    refine ⟨d, Day.addDays?_eq_some_iff.mpr (by rw [hd, Nat.cast_mul]), ?_⟩
    rw [Day.le_def]
    omega
  · intro d hd
    have hnumber := Day.number_of_addDays? hd
    have hlt : ¬ (k : Int) * period.days ≤ reference.number - anchor.number := by
      rw [mul_le_sub_iff]
      omega
    rw [Nat.cast_mul] at hnumber
    rw [Day.lt_def]
    omega

theorem everyDays_eq_ok_iff {period : Period} :
    everyDays reference anchor period = .ok o ↔ IsDailyTrace reference anchor period o := by
  obtain ⟨k, hk, hanswer⟩ := everyDays_eq_answerAt reference anchor period
  have hcount : ∀ n : Nat, n = k ↔ (n : Int) = periodSteps reference anchor period := by
    intro n
    have hsteps : ((periodSteps reference anchor period).toNat : Int) =
        periodSteps reference anchor period :=
      Int.toNat_of_nonneg (by unfold periodSteps; omega)
    rw [hk.unique (stopsAt_periodSteps hsteps)]
    omega
  have hfirst : periodPlace period anchor 1 = anchor.addDays? period.days := by
    rw [periodPlace, Nat.one_mul]
  rw [hanswer, answerAt_eq_ok_iff hk.one_le (steps_everyDays period anchor), hfirst]
  constructor
  · rintro ⟨hstart, hday, hsteps, hhorizon⟩
    exact ⟨(hcount _).mp hsteps, hstart, by rw [hsteps]; exact hday, hhorizon⟩
  · rintro ⟨hsteps, hstart, hday, hhorizon⟩
    rw [← hcount] at hsteps
    exact ⟨hstart, by rw [← hsteps]; exact hday, hsteps, hhorizon⟩

/-- The years from the anchor to the reference, and at least one. -/
def yearSteps (reference anchor : Day) : Int := max 1 (reference.year - anchor.year)

/-- What a yearly search answers, said by the difference of the years. In the year of the reference
it depends on the day whether one more step is taken. -/
structure IsYearlyTrace (reference anchor : Day) (o : Occurrence) : Prop where
  exists_steps_eq : ∃ (k : Nat) (c : Day), (k : Int) = yearSteps reference anchor ∧
    anchor.addYears k = .ok (some c) ∧ o.trace.steps = if reference < c then k else k + 1
  firstCandidate_eq : anchor.addYears 1 = .ok (some o.trace.firstCandidate)
  day_eq : anchor.addYears o.trace.steps = .ok (some o.day)
  horizon_eq : o.trace.horizon = none

theorem year_of_yearPlace {d : Day} (h : yearPlace anchor k = some d) :
    d.year = anchor.year + k :=
  (Day.year_of_ofDate? h).trans (Date.year_addYears _ _)

theorem exists_yearPlace_eq_some (h : anchor.year + k ≤ lastYear) :
    ∃ d, yearPlace anchor k = some d := by
  rw [← Option.ne_none_iff_exists', Ne, yearPlace_eq_none_iff]
  exact Int.not_lt.mpr h

theorem passed_yearSteps (hk : (k : Int) = yearSteps reference anchor) :
    Passed (yearPlace anchor) reference k := by
  intro j hj hlt
  have hyear := reference.year_le_lastYear
  unfold yearSteps at hk
  obtain ⟨d, hd⟩ : ∃ d, yearPlace anchor j = some d := exists_yearPlace_eq_some (by omega)
  have hdyear := year_of_yearPlace hd
  exact ⟨d, hd, Int.le_of_lt (Day.lt_of_year_lt (by omega))⟩

theorem stopsAt_yearSteps {c : Day} (hk : (k : Int) = yearSteps reference anchor)
    (hc : yearPlace anchor k = some c) :
    StopsAt (yearPlace anchor) reference (if reference < c then k else k + 1) := by
  have hpassed := passed_yearSteps hk
  unfold yearSteps at hk
  split
  · rename_i hlt
    exact hpassed.stopsAt_of_lt (by omega) hc hlt
  · rename_i hle
    refine ⟨by omega, hpassed.succ hc (Int.not_lt.mp hle), ?_⟩
    intro d hd
    have hyear := year_of_yearPlace hd
    exact Day.lt_of_year_lt (by omega)

theorem yearly_eq_ok_iff :
    yearly reference anchor = .ok o ↔ IsYearlyTrace reference anchor o := by
  obtain ⟨n, hn, hanswer⟩ := yearly_eq_answerAt reference anchor
  have hplace : ∀ (i : Nat) (d : Day),
      anchor.addYears i = .ok (some d) ↔ yearPlace anchor i = some d := by
    intro i d
    rw [addYears_eq_yearPlace, Except.ok.injEq]
  have hfirst := hplace 1 o.trace.firstCandidate
  rw [hanswer, answerAt_eq_ok_iff hn.one_le (steps_yearly anchor)]
  constructor
  · rintro ⟨hstart, hday, rfl, hhorizon⟩
    obtain ⟨k, hk⟩ : ∃ k : Nat, (k : Int) = yearSteps reference anchor :=
      ⟨_, Int.toNat_of_nonneg (by unfold yearSteps; omega)⟩
    -- the place exists: it is the first one, or it lies in the year of the reference
    obtain ⟨c, hc⟩ : ∃ c, yearPlace anchor k = some c := by
      have hone := year_of_yearPlace hstart
      have hlast := o.trace.firstCandidate.year_le_lastYear
      have hyear := reference.year_le_lastYear
      unfold yearSteps at hk
      exact exists_yearPlace_eq_some (by omega)
    refine ⟨⟨k, c, hk, (hplace k c).mpr hc, ?_⟩, hfirst.mpr hstart, (hplace _ _).mpr hday, hhorizon⟩
    exact hn.unique (stopsAt_yearSteps hk hc)
  · rintro ⟨⟨k, c, hk, hc, hsteps⟩, hstart, hday, hhorizon⟩
    have hstops := stopsAt_yearSteps hk ((hplace k c).mp hc)
    rw [← hsteps] at hstops
    obtain rfl := hn.unique hstops
    exact ⟨hfirst.mp hstart, (hplace _ _).mp hday, rfl, hhorizon⟩

/-- What a search that tests day after day answers: its first candidate is the day after the later
one of anchor and reference, and it has tested one day for each step, within its horizon. -/
structure IsScanTrace (horizon : Nat) (reference anchor : Day) (o : Occurrence) : Prop where
  firstCandidate_eq : (max anchor reference).next? = some o.trace.firstCandidate
  day_eq : o.trace.firstCandidate.addDays? (o.trace.steps - 1) = some o.day
  one_le_steps : 1 ≤ o.trace.steps
  steps_le : o.trace.steps ≤ horizon
  horizon_eq : o.trace.horizon = some horizon

theorem ScanEnd.isScanTrace {p : Day → Prop} {rule : Rule} {horizon : Nat}
    (h : ScanEnd p rule horizon (scanStart reference anchor) (scanStart reference anchor) 1 horizon
      (.ok o)) :
    IsScanTrace horizon reference anchor o := by
  cases h with
  | found start d i hstart hi hnumber _ _ =>
    refine ⟨?_, ?_, by dsimp only; omega, by dsimp only; omega, rfl⟩
    · rw [Day.next?_eq_some_iff, Day.number_max, hstart, scanStart]
    · rw [Day.addDays?_eq_some_iff]
      dsimp only
      omega

end Search

namespace Rule

open Search

variable {rule : Rule} {reference anchor : Day} {o : Occurrence}

/-- The day and the trace that the rule must answer, said without its loop. -/
def HasTrace (reference anchor : Day) (o : Occurrence) : Rule → Prop
  | yearly => IsYearlyTrace reference anchor o
  | everyDays period => IsDailyTrace reference anchor period o
  | weekly _ => IsScanTrace weeklyHorizon reference anchor o ∧ o.trace.steps ≤ 7
  | monthly _ _ => IsScanTrace monthlyHorizon reference anchor o

/-- A reference up to the anchor makes no difference, neither to the answer nor to the error. -/
theorem nextOccurrence_eq_of_le (rule : Rule) (hle : reference ≤ anchor) :
    rule.nextOccurrence reference anchor = rule.nextOccurrence anchor anchor := by
  have hself : anchor ≤ anchor := Int.le_refl _
  have hscan : ∀ horizon admits, firstAdmitted rule horizon admits reference anchor =
      firstAdmitted rule horizon admits anchor anchor := by
    intro horizon admits
    rw [firstAdmitted, firstAdmitted, Day.max_eq_left hle, Day.max_eq_left hself]
  cases rule with
  | yearly =>
    obtain ⟨j, hj, hreference⟩ := yearly_eq_answerAt reference anchor
    obtain ⟨k, hk, hanchor⟩ := yearly_eq_answerAt anchor anchor
    have hsteps := steps_yearly anchor
    obtain rfl := hj.unique (stopsAt_one hsteps hle)
    obtain rfl := hk.unique (stopsAt_one hsteps hself)
    exact hreference.trans hanchor.symm
  | everyDays period =>
    obtain ⟨j, hj, hreference⟩ := everyDays_eq_answerAt reference anchor period
    obtain ⟨k, hk, hanchor⟩ := everyDays_eq_answerAt anchor anchor period
    have hsteps := steps_everyDays period anchor
    obtain rfl := hj.unique (stopsAt_one hsteps hle)
    obtain rfl := hk.unique (stopsAt_one hsteps hself)
    exact hreference.trans hanchor.symm
  | weekly days => exact hscan weeklyHorizon _
  | monthly days selected => exact hscan monthlyHorizon _

theorem hasTrace_of_nextOccurrence (h : rule.nextOccurrence reference anchor = .ok o) :
    rule.HasTrace reference anchor o := by
  cases rule with
  | yearly => exact yearly_eq_ok_iff.mp h
  | everyDays period => exact everyDays_eq_ok_iff.mp h
  | weekly days =>
    have hend := weekly_scanEnd days reference anchor
    rw [h] at hend
    have htrace := hend.isScanTrace
    refine ⟨htrace, ?_⟩
    have hle := weekly_le days h
    have hfirst := Day.next?_eq_some_iff.mp htrace.firstCandidate_eq
    have hday := Day.number_of_addDays? htrace.day_eq
    rw [Day.number_max] at hfirst
    omega
  | monthly days selected =>
    have hend := monthly_scanEnd days selected reference anchor
    rw [h] at hend
    exact hend.isScanTrace

/-- The day that a search answers and the trace that explains it are said without its loop. A trace
without a horizon is that of a yearly or daily rule, whose search answers just what it says. -/
theorem nextOccurrence_closedForm (rule : Rule) (reference anchor : Day) (o : Occurrence) :
    (rule.nextOccurrence reference anchor = .ok o → rule.HasTrace reference anchor o) ∧
    (rule.HasTrace reference anchor o → o.trace.horizon = none →
      rule.nextOccurrence reference anchor = .ok o) := by
  refine ⟨hasTrace_of_nextOccurrence, ?_⟩
  intro h hnone
  cases rule with
  | yearly => exact yearly_eq_ok_iff.mpr h
  | everyDays period => exact everyDays_eq_ok_iff.mpr h
  | weekly days =>
    rw [h.1.horizon_eq] at hnone
    cases hnone
  | monthly days selected =>
    rw [IsScanTrace.horizon_eq h] at hnone
    cases hnone

/-- On the 28th of February the leap day is not yet passed after three years. And from the first day
of the calendar a daily search takes nearly two hundred million steps to the last one. -/
theorem nextOccurrence_closedForm_leapDay :
    (∃ leapDay reference o, leapDay.date = ⟨2024, 2, 29⟩ ∧ reference.date = ⟨2027, 2, 28⟩ ∧
      yearly.nextOccurrence reference leapDay = .ok o ∧ yearly.HasTrace reference leapDay o ∧
      o.trace.steps = 4 ∧ o.day.date = ⟨2028, 2, 29⟩) ∧
    ∃ daily reference o, Rule.parse "d 1" = .ok daily ∧ reference.date = ⟨262142, 12, 30⟩ ∧
      daily.HasTrace reference Day.first o ∧ o.trace.horizon = none ∧
      o.trace.steps = 191491528 ∧ daily.nextOccurrence reference Day.first = .ok o ∧
      o.day = Day.last := by
  constructor
  · have h : yearly.nextOccurrence ⟨740040, by decide, by decide⟩ ⟨738945, by decide, by decide⟩ =
        .ok ⟨⟨740406, by decide, by decide⟩, ⟨739310, by decide, by decide⟩, 4, none⟩ := by
      decide +kernel
    exact ⟨_, _, _, by decide, by decide, h, (nextOccurrence_closedForm _ _ _ _).1 h, rfl,
      by decide⟩
  · have htrace : (everyDays ⟨1, by decide, by decide⟩).HasTrace
        ⟨95745398, by decide, by decide⟩ Day.first
        ⟨Day.last, ⟨-95746128, by decide, by decide⟩, 191491528, none⟩ :=
      ⟨by decide, by decide, by decide, rfl⟩
    exact ⟨_, _, _, by decide, by decide, htrace, rfl, rfl,
      (nextOccurrence_closedForm _ _ _ _).2 htrace rfl, rfl⟩

end Rule

end Agenda
