import Agenda.Proofs.Rule.Occurrence

/-!
# Yearly and daily searches

Both searches step from place to place, away from the anchor, and stop at the first place that is
later than the reference or that the calendar lacks. The occurrences are the places, each later
than the one before it, and behind a missing place is none. So the place where the steps stop
decides the search: it is the next occurrence, or there is no occurrence after the reference.
-/

namespace Agenda

namespace Search

variable {place : Nat → Option Day} {reference anchor d : Day} {rule : Rule} {k : Nat}

/-- The places that the steps of a rule reach from the anchor. -/
structure Steps (rule : Rule) (anchor : Day) (place : Nat → Option Day) : Prop where
  occurs_iff : ∀ d, rule.Occurs anchor d ↔ ∃ k, 1 ≤ k ∧ place k = some d
  lt : ∀ {j k a b}, j < k → place j = some a → place k = some b → a < b
  eq_none : ∀ {j k}, j ≤ k → place j = none → place k = none

/-- The places before the `k`-th one are not later than the reference. -/
def Passed (place : Nat → Option Day) (reference : Day) (k : Nat) : Prop :=
  ∀ j, 1 ≤ j → j < k → ∃ d, place j = some d ∧ d ≤ reference

/-- The `k`-th place is the first one that is later than the reference or missing. -/
structure StopsAt (place : Nat → Option Day) (reference : Day) (k : Nat) : Prop where
  one_le : 1 ≤ k
  passed : Passed place reference k
  reference_lt : ∀ d, place k = some d → reference < d

theorem passed_one (place : Nat → Option Day) (reference : Day) : Passed place reference 1 := by
  intro j hj hlt
  omega

theorem Passed.succ (h : Passed place reference k) (hd : place k = some d)
    (hle : d ≤ reference) : Passed place reference (k + 1) := by
  intro j hj hlt
  rcases Nat.lt_succ_iff_lt_or_eq.mp hlt with hjk | rfl
  · exact h j hj hjk
  · exact ⟨d, hd, hle⟩

theorem Passed.stopsAt_of_none (h : Passed place reference k) (hk : 1 ≤ k)
    (hnone : place k = none) : StopsAt place reference k :=
  ⟨hk, h, fun d hd => by simp [hnone] at hd⟩

theorem Passed.stopsAt_of_lt (h : Passed place reference k) (hk : 1 ≤ k)
    (hd : place k = some d) (hlt : reference < d) : StopsAt place reference k := by
  refine ⟨hk, h, ?_⟩
  intro e he
  obtain rfl : d = e := Option.some.inj (hd.symm.trans he)
  exact hlt

theorem StopsAt.isNext (hk : StopsAt place reference k) (hsteps : Steps rule anchor place)
    (hd : place k = some d) : rule.IsNext reference anchor d where
  occurs := (hsteps.occurs_iff d).mpr ⟨k, hk.one_le, hd⟩
  reference_lt := hk.reference_lt d hd
  le_of_occurs := by
    intro e he hlt
    obtain ⟨j, hj, hplace⟩ := (hsteps.occurs_iff e).mp he
    rcases Nat.lt_trichotomy j k with hjk | rfl | hkj
    · obtain ⟨x, hx, hle⟩ := hk.passed j hj hjk
      obtain rfl : x = e := Option.some.inj (hx.symm.trans hplace)
      rw [Day.lt_def] at hlt
      rw [Day.le_def] at hle
      omega
    · obtain rfl : d = e := Option.some.inj (hd.symm.trans hplace)
      exact Int.le_refl _
    · exact Int.le_of_lt (hsteps.lt hkj hd hplace)

theorem StopsAt.not_reference_lt (hk : StopsAt place reference k)
    (hsteps : Steps rule anchor place) (hnone : place k = none) {e : Day}
    (he : rule.Occurs anchor e) : ¬ reference < e := by
  obtain ⟨j, hj, hplace⟩ := (hsteps.occurs_iff e).mp he
  rcases Nat.lt_or_ge j k with hjk | hkj
  · obtain ⟨x, hx, hle⟩ := hk.passed j hj hjk
    obtain rfl : x = e := Option.some.inj (hx.symm.trans hplace)
    rw [Day.lt_def]
    rw [Day.le_def] at hle
    omega
  · rw [hsteps.eq_none hkj hnone] at hplace
    cases hplace

/-- The `k`-th place and how many steps away it is. -/
def reached (rule : Rule) (place : Nat → Option Day) (k : Nat) : Except SearchError (Day × Nat) :=
  match place k with
  | some d => .ok (d, k)
  | none => .error (.calendarOverflow rule)

theorem reached_of_some (hd : place k = some d) : reached rule place k = .ok (d, k) := by
  rw [reached, hd]

theorem reached_of_none (hnone : place k = none) :
    reached rule place k = .error (.calendarOverflow rule) := by
  rw [reached, hnone]

/-- The answer of a search whose steps stop at the `k`-th place. -/
def answerAt (rule : Rule) (place : Nat → Option Day) (k : Nat) :
    Except SearchError Occurrence :=
  match place 1, place k with
  | some start, some d => .ok ⟨d, start, k, none⟩
  | _, _ => .error (.calendarOverflow rule)

theorem answerAt_of_some (hk : StopsAt place reference k) (hsteps : Steps rule anchor place)
    (hd : place k = some d) :
    ∃ start, place 1 = some start ∧ answerAt rule place k = .ok ⟨d, start, k, none⟩ := by
  cases hstart : place 1 with
  | none =>
    rw [hsteps.eq_none hk.one_le hstart] at hd
    cases hd
  | some start => exact ⟨start, rfl, by simp only [answerAt, hstart, hd]⟩

theorem answerAt_of_none (hnone : place k = none) :
    answerAt rule place k = .error (.calendarOverflow rule) := by
  rw [answerAt, hnone]
  cases place 1 <;> rfl

theorem StopsAt.isNext_of_answerAt (hk : StopsAt place reference k)
    (hsteps : Steps rule anchor place) {o : Occurrence} (h : answerAt rule place k = .ok o) :
    rule.IsNext reference anchor o.day := by
  cases hd : place k with
  | none =>
    rw [answerAt_of_none hd] at h
    cases h
  | some d =>
    obtain ⟨start, -, hanswer⟩ := answerAt_of_some hk hsteps hd
    obtain rfl := Except.ok.inj (hanswer.symm.trans h)
    exact hk.isNext hsteps hd

theorem StopsAt.answerAt_eq_error_iff (hk : StopsAt place reference k)
    (hsteps : Steps rule anchor place) {e : SearchError} :
    answerAt rule place k = .error e ↔
      e = .calendarOverflow rule ∧ ∀ d, rule.Occurs anchor d → ¬ reference < d := by
  cases hd : place k with
  | none =>
    rw [answerAt_of_none hd, Except.error.injEq]
    constructor
    · rintro rfl
      exact ⟨rfl, fun d => hk.not_reference_lt hsteps hd⟩
    · rintro ⟨rfl, -⟩
      rfl
  | some d =>
    obtain ⟨start, -, hanswer⟩ := answerAt_of_some hk hsteps hd
    have hnext := hk.isNext hsteps hd
    rw [hanswer]
    simp only [reduceCtorEq, false_iff]
    rintro ⟨-, hnone⟩
    exact hnone d hnext.occurs hnext.reference_lt

/-- The anchor `k` years later. -/
def yearPlace (anchor : Day) (k : Nat) : Option Day := Day.ofDate? (anchor.date.addYears k)

theorem addYears_eq_yearPlace (anchor : Day) (k : Nat) :
    anchor.addYears k = .ok (yearPlace anchor k) := by
  have hfirst := anchor.firstYear_le_year
  exact anchor.addYears_eq (by omega)

theorem yearPlace_eq_none_iff : yearPlace anchor k = none ↔ lastYear < anchor.year + k := by
  have hfirst := anchor.firstYear_le_year
  have hreal := anchor.date_isReal.addYears k
  rw [yearPlace, Day.ofDate?_eq_none_iff, Date.year_addYears]
  change ¬ (_ ∧ firstYear ≤ anchor.year + k ∧ anchor.year + k ≤ lastYear) ↔ _
  simp only [hreal, true_and]
  omega

theorem steps_yearly (anchor : Day) : Steps .yearly anchor (yearPlace anchor) where
  occurs_iff d := by simp only [Rule.Occurs, yearPlace, Day.ofDate?_eq_some_iff]
  lt := by
    intro j k a b hjk ha hb
    rw [yearPlace, Day.ofDate?_eq_some_iff] at ha hb
    rw [Day.lt_def, ← Day.number_date a, ← Day.number_date b, ha, hb]
    apply (anchor.date_isReal.addYears j).number_lt_of_year_lt (anchor.date_isReal.addYears k)
    rw [Date.year_addYears, Date.year_addYears]
    omega
  eq_none := by
    intro j k hjk hnone
    rw [yearPlace_eq_none_iff] at hnone ⊢
    omega

theorem yearsPast_stopsAt {candidate : Day} {years : Nat} (hyears : 1 ≤ years)
    (hpassed : Passed (yearPlace anchor) reference years)
    (hcandidate : yearPlace anchor years = some candidate) :
    ∃ k, StopsAt (yearPlace anchor) reference k ∧
      yearsPast reference anchor candidate years = reached .yearly (yearPlace anchor) k := by
  fun_induction yearsPast reference anchor candidate years with
  | case1 candidate years hle e he =>
    rw [addYears_eq_yearPlace] at he
    cases he
  | case2 candidate years hle hnone =>
    rw [addYears_eq_yearPlace, Except.ok.injEq] at hnone
    have hpassed' := hpassed.succ hcandidate hle
    exact ⟨years + 1, hpassed'.stopsAt_of_none (by omega) hnone, (reached_of_none hnone).symm⟩
  | case3 candidate years hle next hnext ih =>
    rw [addYears_eq_yearPlace, Except.ok.injEq] at hnext
    exact ih (by omega) (hpassed.succ hcandidate hle) hnext
  | case4 candidate years hlt =>
    have hstop := hpassed.stopsAt_of_lt hyears hcandidate (Int.not_le.mp hlt)
    exact ⟨years, hstop, (reached_of_some hcandidate).symm⟩

theorem yearly_eq_answerAt (reference anchor : Day) :
    ∃ k, StopsAt (yearPlace anchor) reference k ∧
      yearly reference anchor = answerAt .yearly (yearPlace anchor) k := by
  have hfirst : anchor.addYears 1 = .ok (yearPlace anchor 1) := addYears_eq_yearPlace anchor 1
  cases hstart : yearPlace anchor 1 with
  | none =>
    refine ⟨1, (passed_one _ reference).stopsAt_of_none le_rfl hstart, ?_⟩
    rw [answerAt_of_none hstart, yearly, hfirst, hstart]
  | some start =>
    obtain ⟨k, hk, hpast⟩ := yearsPast_stopsAt le_rfl (passed_one _ reference) hstart
    refine ⟨k, hk, ?_⟩
    simp only [yearly, hfirst, hstart, hpast, answerAt, reached]
    cases yearPlace anchor k <;> rfl

/-- The day `k` periods after the anchor. -/
def periodPlace (period : Period) (anchor : Day) (k : Nat) : Option Day :=
  anchor.addDays? (k * period.days)

theorem periodPlace_succ {period : Period} (hd : periodPlace period anchor k = some d) :
    periodPlace period anchor (k + 1) = d.addDays? period.days := by
  have hnumber := Day.number_of_addDays? hd
  simp only [periodPlace, Day.addDays?, hnumber, Nat.succ_mul]
  congr 1
  omega

theorem steps_everyDays (period : Period) (anchor : Day) :
    Steps (.everyDays period) anchor (periodPlace period anchor) where
  occurs_iff d := by
    simp only [Rule.Occurs, periodPlace, Day.addDays?_eq_some_iff, Nat.cast_mul]
  lt := by
    intro j k a b hjk ha hb
    have hlt := Nat.mul_lt_mul_of_pos_right hjk period.one_le
    rw [periodPlace, Day.addDays?_eq_some_iff] at ha hb
    rw [Day.lt_def]
    omega
  eq_none := by
    intro j k hjk hnone
    have hle := Nat.mul_le_mul_right period.days hjk
    rw [periodPlace, Day.addDays?_eq_none_iff] at hnone ⊢
    omega

theorem daysPast_stopsAt {period : Period} {candidate : Day} {steps : Nat} (hsteps : 1 ≤ steps)
    (hpassed : Passed (periodPlace period anchor) reference steps)
    (hcandidate : periodPlace period anchor steps = some candidate) :
    ∃ k, StopsAt (periodPlace period anchor) reference k ∧
      daysPast reference period candidate steps =
        reached (.everyDays period) (periodPlace period anchor) k := by
  fun_induction daysPast reference period candidate steps with
  | case1 candidate steps hle hnone =>
    rw [← periodPlace_succ hcandidate] at hnone
    have hpassed' := hpassed.succ hcandidate hle
    exact ⟨steps + 1, hpassed'.stopsAt_of_none (by omega) hnone, (reached_of_none hnone).symm⟩
  | case2 candidate steps hle next hnext ih =>
    rw [← periodPlace_succ hcandidate] at hnext
    exact ih (by omega) (hpassed.succ hcandidate hle) hnext
  | case3 candidate steps hlt =>
    have hstop := hpassed.stopsAt_of_lt hsteps hcandidate (Int.not_le.mp hlt)
    exact ⟨steps, hstop, (reached_of_some hcandidate).symm⟩

theorem everyDays_eq_answerAt (reference anchor : Day) (period : Period) :
    ∃ k, StopsAt (periodPlace period anchor) reference k ∧
      everyDays reference anchor period =
        answerAt (.everyDays period) (periodPlace period anchor) k := by
  have hfirst : anchor.addDays? period.days = periodPlace period anchor 1 := by
    rw [periodPlace, Nat.one_mul]
  cases hstart : periodPlace period anchor 1 with
  | none =>
    refine ⟨1, (passed_one _ reference).stopsAt_of_none le_rfl hstart, ?_⟩
    rw [answerAt_of_none hstart, everyDays, hfirst, hstart]
  | some start =>
    obtain ⟨k, hk, hpast⟩ := daysPast_stopsAt le_rfl (passed_one _ reference) hstart
    refine ⟨k, hk, ?_⟩
    simp only [everyDays, hfirst, hstart, hpast, answerAt, reached]
    cases periodPlace period anchor k <;> rfl

end Search

end Agenda
