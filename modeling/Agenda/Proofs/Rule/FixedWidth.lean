import Agenda.Proofs.Rule.ClosedForm

/-!
# The search on machine integers

A search counts its steps in 32 bits, tests the members of its selections by masks, and finds the
length of a month one day before the next one. Here it is written with each of these operations
checked, and with a bound on its two loops: the years between the ends of the calendar for a yearly
rule, and the days between them for a daily one. The checks never fail, so the search answers the
same on machine integers as without their bounds.
-/

namespace Agenda

/-- How a search on machine integers may go wrong. -/
inductive Breach
  | wraps
  | shiftsOut
  | beforeFirstDay
  | endless
deriving DecidableEq, Repr

namespace FixedWidth

def FitsInt32 (n : Int) : Prop := -2 ^ 31 ≤ n ∧ n < 2 ^ 31

instance (n : Int) : Decidable (FitsInt32 n) := inferInstanceAs (Decidable (_ ∧ _))

def int32 (n : Int) : Except Breach Int := if FitsInt32 n then .ok n else .error .wraps

def word32 (n : Int) : Except Breach Nat :=
  if 0 ≤ n ∧ n < 2 ^ 32 then .ok n.toNat else .error .wraps

/-- Tests the member with the number, counted from 1, by a mask of `width` bits. -/
def testsMember {n : Nat} (width : Nat) (s : Selection n) (number : Nat) : Except Breach Bool := do
  let place ← word32 (number - 1)
  if place < width then
    return s.bits.setWidth width &&& (1 : BitVec width) <<< place != 0
  else
    throw .shiftsOut

def nextMonth (year : Int) (month : Nat) : Except Breach Date :=
  if month = 12 then do
    let next ← int32 (year + 1)
    return ⟨next, 1, 1⟩
  else do
    let next ← word32 (month + 1)
    return ⟨year, next, 1⟩

def daysInMonth (year : Int) (month : Nat) : Except Breach Nat := do
  match Day.ofDate? (← nextMonth year month) with
  | none => return 31
  | some start =>
    match start.prev? with
    | none => throw .beforeFirstDay
    | some d => return d.dayOfMonth

/-- The sum of the years is checked by the search itself: a sum out of 32 bits is no year. -/
def addYears (d : Day) (years : Int) : Except Breach (Option Day) :=
  if FitsInt32 (d.year + years) then do
    let length ← daysInMonth (d.year + years) d.month
    return Day.ofDate? ⟨d.year + years, d.month, min d.dayOfMonth length⟩
  else return none

/-- The years between the first and the last one of the calendar. -/
def yearSpan : Nat := (lastYear - firstYear).toNat

def daySpan : Nat := (Day.last.number - Day.first.number).toNat

/-- Moves on while the reference is not passed, `left` times at most. -/
def yearsPast (reference anchor candidate : Day) (years : Int) (left : Nat) :
    Except Breach (Except SearchError (Day × Nat)) :=
  if candidate ≤ reference then
    match left with
    | 0 => throw .endless
    | left + 1 => do
      let years ← int32 (years + 1)
      match ← addYears anchor years with
      | none => return .error (.calendarOverflow .yearly)
      | some next => yearsPast reference anchor next years left
  else return .ok (candidate, years.natAbs)

def yearly (reference anchor : Day) : Except Breach (Except SearchError Occurrence) := do
  match ← addYears anchor 1 with
  | none => return .error (.calendarOverflow .yearly)
  | some start =>
    match ← yearsPast reference anchor start 1 yearSpan with
    | .error e => return .error e
    | .ok (day, steps) => return .ok ⟨day, start, steps, none⟩

def daysPast (reference : Day) (period : Period) (candidate : Day) (steps : Nat) (left : Nat) :
    Except Breach (Except SearchError (Day × Nat)) :=
  if candidate ≤ reference then
    match left with
    | 0 => throw .endless
    | left + 1 =>
      match candidate.addDays? period.days with
      | none => return .error (.calendarOverflow (.everyDays period))
      | some next => do
        let steps ← word32 (steps + 1)
        daysPast reference period next steps left
  else return .ok (candidate, steps)

def everyDays (reference anchor : Day) (period : Period) :
    Except Breach (Except SearchError Occurrence) :=
  match anchor.addDays? period.days with
  | none => return .error (.calendarOverflow (.everyDays period))
  | some start => do
    match ← daysPast reference period start 1 daySpan with
    | .error e => return .error e
    | .ok (day, steps) => return .ok ⟨day, start, steps, none⟩

def admittedFrom (rule : Rule) (horizon : Nat) (admits : Day → Except Breach Bool)
    (start day : Day) (steps : Nat) : Nat → Except Breach (Except SearchError Occurrence)
  | 0 => return .error (.horizonExhausted rule horizon)
  | left + 1 => do
    let examined ← word32 steps
    if ← admits day then
      return .ok ⟨day, start, examined, some horizon⟩
    else
      match day.next? with
      | none => return .error (.calendarOverflow rule)
      | some next => admittedFrom rule horizon admits start next (examined + 1) left

def firstAdmitted (rule : Rule) (horizon : Nat) (admits : Day → Except Breach Bool)
    (reference anchor : Day) : Except Breach (Except SearchError Occurrence) :=
  match (max anchor reference).next? with
  | none => return .error (.calendarOverflow rule)
  | some start => admittedFrom rule horizon admits start start 1 horizon

def admitsMonthDay (s : Selection 33) (d : Day) : Except Breach Bool := do
  if ← testsMember 64 s d.dayOfMonth then
    return true
  else
    let length ← daysInMonth d.year d.month
    let following ← word32 (d.dayOfMonth + 1)
    return (s.contains lastPlace && d.dayOfMonth == length) ||
      (s.contains secondLastPlace && following == length)

def admitsMonth (selected : Option (Selection 12)) (d : Day) : Except Breach Bool :=
  match selected with
  | none => return true
  | some s => testsMember 16 s d.month

def admitsMonthly (days : Selection 33) (selected : Option (Selection 12)) (d : Day) :
    Except Breach Bool := do
  if ← admitsMonth selected d then admitsMonthDay days d else return false

/-- The first occurrence after the reference, or how the search goes wrong. -/
def nextOccurrence (reference anchor : Day) : Rule → Except Breach (Except SearchError Occurrence)
  | .yearly => yearly reference anchor
  | .everyDays period => everyDays reference anchor period
  | .weekly days =>
    firstAdmitted (.weekly days) weeklyHorizon (fun d => testsMember 8 days d.isoWeekday)
      reference anchor
  | .monthly days selected =>
    firstAdmitted (.monthly days selected) monthlyHorizon (admitsMonthly days selected)
      reference anchor

theorem ok_bind {ε α β : Type} (a : α) (f : α → Except ε β) : (Except.ok a >>= f) = f a := rfl

variable {reference anchor candidate d : Day} {k left : Nat}

theorem int32_eq {n : Int} (h : FitsInt32 n) : int32 n = .ok n := if_pos h

theorem word32_eq {n : Nat} (h : n < 2 ^ 32) : word32 n = .ok n := by
  rw [word32, if_pos ⟨Int.natCast_nonneg n, by omega⟩, Int.toNat_natCast]

theorem fitsInt32_of_mem {n : Int} (hfirst : firstYear ≤ n) (hlast : n ≤ lastYear + 2) :
    FitsInt32 n := by
  unfold firstYear at hfirst
  unfold lastYear at hlast
  unfold FitsInt32
  omega

theorem twoPow_ne_zero {width i : Nat} (hi : i < width) : BitVec.twoPow width i ≠ 0 := by
  intro hzero
  have htest := congrArg (fun x => x.getLsbD i) hzero
  simp [hi] at htest

theorem and_shiftLeft_ne_zero {width i : Nat} (b : BitVec width) (hi : i < width) :
    (b &&& (1 : BitVec width) <<< i != 0) = b.getLsbD i := by
  have hmask : (1 : BitVec width) <<< i = BitVec.twoPow width i := (BitVec.twoPow_eq width i).symm
  rw [hmask, BitVec.and_twoPow]
  cases b.getLsbD i with
  | false => simp
  | true => simpa using twoPow_ne_zero hi

theorem testsMember_eq {n width number : Nat} (s : Selection n) (hone : 1 ≤ number)
    (hle : number ≤ width) (hwidth : width ≤ 64) :
    testsMember width s number = .ok (s.contains (number - 1)) := by
  have hplace : word32 (number - 1) = .ok (number - 1 : Nat) := by
    rw [← Nat.cast_one, ← Nat.cast_sub hone]
    exact word32_eq (by omega)
  have hlt : number - 1 < width := by omega
  rw [testsMember, hplace, ok_bind, if_pos hlt, and_shiftLeft_ne_zero _ hlt,
    BitVec.getLsbD_setWidth, decide_eq_true hlt]
  rfl

theorem nextMonth_eq {year : Int} {month : Nat} (hyear : FitsInt32 (year + 1))
    (hmonth : month ≤ 12) : nextMonth year month = .ok (Agenda.nextMonth year month) := by
  have hnext : word32 (month + 1) = .ok (month + 1) := word32_eq (n := month + 1) (by omega)
  unfold nextMonth Agenda.nextMonth
  split
  · rw [int32_eq hyear]
    rfl
  · rw [hnext]
    rfl

theorem daysInMonth_eq_of_ok {year : Int} {month length : Nat} (hyear : FitsInt32 (year + 1))
    (hmonth : month ≤ 12) (h : Agenda.daysInMonth year month = .ok length) :
    daysInMonth year month = .ok length := by
  rw [daysInMonth, nextMonth_eq hyear hmonth, ok_bind]
  cases hstart : Day.ofDate? (Agenda.nextMonth year month) with
  | none =>
    simp only [Agenda.daysInMonth, hstart, Except.ok.injEq] at h
    exact congrArg Except.ok h
  | some start =>
    simp only [Agenda.daysInMonth, hstart] at h
    cases hprev : start.prev? with
    | none =>
      rw [hprev] at h
      cases h
    | some e =>
      simp only [hprev, Except.ok.injEq] at h
      dsimp only
      rw [hprev]
      exact congrArg Except.ok h

theorem addYears_eq (hk : anchor.year + k ≤ lastYear + 1) :
    addYears anchor k = .ok (Search.yearPlace anchor k) := by
  have hfirst := anchor.firstYear_le_year
  have hexact := Search.addYears_eq_yearPlace anchor k
  have hnext : FitsInt32 (anchor.year + k + 1) := fitsInt32_of_mem (by omega) (by omega)
  rw [addYears, if_pos (fitsInt32_of_mem (by omega) (by omega))]
  unfold Day.addYears at hexact
  split at hexact
  · cases hexact
  · rename_i length hlength
    rw [daysInMonth_eq_of_ok hnext anchor.month_range.2 hlength]
    exact congrArg Except.ok (Except.ok.inj hexact)

/-- A candidate is inside the calendar, so a step is left, and the year that it leads to fits. -/
theorem addYears_succ_eq (hplace : Search.yearPlace anchor k = some candidate)
    (hleft : lastYear < anchor.year + k + left) :
    ∃ rest, left = rest + 1 ∧ int32 (k + 1) = .ok (k + 1 : Nat) ∧
      addYears anchor (k + 1 : Nat) = .ok (Search.yearPlace anchor (k + 1)) := by
  have hyear := Search.year_of_yearPlace hplace
  have hlast := candidate.year_le_lastYear
  have hfirst := anchor.firstYear_le_year
  refine ⟨left - 1, by omega, int32_eq ?_, addYears_eq (by omega)⟩
  unfold firstYear at hfirst
  unfold lastYear at hlast
  unfold FitsInt32
  omega

/-- The years that are left reach behind the last year, so the loop ends. -/
theorem yearsPast_eq (hplace : Search.yearPlace anchor k = some candidate)
    (hleft : lastYear < anchor.year + k + left) :
    yearsPast reference anchor candidate k left =
      .ok (Search.yearsPast reference anchor candidate k) := by
  fun_induction Search.yearsPast reference anchor candidate k generalizing left with
  | case1 candidate years hle e he =>
    rw [Search.addYears_eq_yearPlace] at he
    cases he
  | case2 candidate years hle hnone =>
    obtain ⟨left, rfl, hstep⟩ := addYears_succ_eq hplace hleft
    rw [Search.addYears_eq_yearPlace, Except.ok.injEq] at hnone
    rw [yearsPast, if_pos hle]
    simp only [hstep, ok_bind, hnone]
    rfl
  | case3 candidate years hle next hnext ih =>
    obtain ⟨left, rfl, hstep⟩ := addYears_succ_eq hplace hleft
    rw [Search.addYears_eq_yearPlace, Except.ok.injEq] at hnext
    rw [yearsPast, if_pos hle]
    simp only [hstep, ok_bind, hnext]
    exact ih hnext (by omega)
  | case4 candidate years hlt =>
    rw [yearsPast.eq_def, if_neg hlt]
    rfl

theorem yearly_eq (reference anchor : Day) :
    yearly reference anchor = .ok (Search.yearly reference anchor) := by
  have hfirst := anchor.firstYear_le_year
  have hlast := anchor.year_le_lastYear
  have hguarded : addYears anchor 1 = .ok (Search.yearPlace anchor 1) :=
    addYears_eq (k := 1) (by omega)
  have hexact : anchor.addYears 1 = .ok (Search.yearPlace anchor 1) :=
    Search.addYears_eq_yearPlace anchor 1
  rw [yearly, Search.yearly, hguarded, hexact, ok_bind]
  cases hplace : Search.yearPlace anchor 1 with
  | none => rfl
  | some start =>
    have hspan : (yearSpan : Int) = lastYear - firstYear := rfl
    have hpast : yearsPast reference anchor start 1 yearSpan =
        .ok (Search.yearsPast reference anchor start 1) := by
      apply yearsPast_eq hplace
      rw [Nat.cast_one]
      omega
    dsimp only
    rw [hpast, ok_bind]
    rcases Search.yearsPast reference anchor start 1 with e | ⟨day, steps⟩
    · rfl
    · rfl

/-- A period has at least one day, so the days that are left reach behind the last one. -/
theorem daysPast_eq {period : Period} {steps : Nat} (hsteps : steps + left < 2 ^ 32)
    (hleft : Day.last.number < candidate.number + left) :
    daysPast reference period candidate steps left =
      .ok (Search.daysPast reference period candidate steps) := by
  fun_induction Search.daysPast reference period candidate steps generalizing left with
  | case1 candidate steps hle hnone =>
    have hlast := candidate.number_le_last
    obtain ⟨left, rfl⟩ : ∃ rest, left = rest + 1 := ⟨left - 1, by omega⟩
    rw [daysPast, if_pos hle]
    simp only [hnone]
    rfl
  | case2 candidate steps hle next hnext ih =>
    have hlast := candidate.number_le_last
    have hnumber := Day.number_of_addDays? hnext
    have hone := period.one_le
    obtain ⟨left, rfl⟩ : ∃ rest, left = rest + 1 := ⟨left - 1, by omega⟩
    have hword : word32 (steps + 1) = .ok (steps + 1) := word32_eq (n := steps + 1) (by omega)
    rw [daysPast, if_pos hle]
    simp only [hnext, hword, ok_bind]
    exact ih (by omega) (by omega)
  | case3 candidate steps hlt =>
    rw [daysPast.eq_def, if_neg hlt]
    rfl

theorem everyDays_eq (reference anchor : Day) (period : Period) :
    everyDays reference anchor period = .ok (Search.everyDays reference anchor period) := by
  rw [everyDays, Search.everyDays]
  cases hplace : anchor.addDays? period.days with
  | none => rfl
  | some start =>
    have hfirst := anchor.first_le_number
    have hone := period.one_le
    have hnumber := Day.number_of_addDays? hplace
    have hspan : (daySpan : Int) = Day.last.number - Day.first.number := rfl
    have hpast : daysPast reference period start 1 daySpan =
        .ok (Search.daysPast reference period start 1) := by
      apply daysPast_eq
      · decide
      · omega
    dsimp only
    rw [hpast, ok_bind]
    rcases Search.daysPast reference period start 1 with e | ⟨day, steps⟩
    · rfl
    · rfl

theorem admittedFrom_eq {rule : Rule} {horizon steps : Nat} {start day : Day}
    {admits : Day → Except CalendarFault Bool} {admits' : Day → Except Breach Bool}
    {p : Day → Bool} (hadmits : ∀ d, admits d = .ok (p d)) (hadmits' : ∀ d, admits' d = .ok (p d))
    (hsteps : steps + left < 2 ^ 32) :
    admittedFrom rule horizon admits' start day steps left =
      .ok (Search.admittedFrom rule horizon admits start day steps left) := by
  induction left generalizing day steps with
  | zero => rfl
  | succ left ih =>
    rw [admittedFrom, Search.admittedFrom, word32_eq (by omega), hadmits, hadmits', ok_bind,
      ok_bind]
    cases p day with
    | true => rfl
    | false =>
      cases day.next? with
      | none => rfl
      | some next => exact ih (by omega)

theorem firstAdmitted_eq {rule : Rule} {horizon : Nat} {admits : Day → Except CalendarFault Bool}
    {admits' : Day → Except Breach Bool} {p : Day → Bool} (hadmits : ∀ d, admits d = .ok (p d))
    (hadmits' : ∀ d, admits' d = .ok (p d)) (hhorizon : 1 + horizon < 2 ^ 32)
    (reference anchor : Day) :
    firstAdmitted rule horizon admits' reference anchor =
      .ok (Search.firstAdmitted rule horizon admits reference anchor) := by
  rw [firstAdmitted, Search.firstAdmitted]
  cases (max anchor reference).next? with
  | none => rfl
  | some start => exact admittedFrom_eq hadmits hadmits' hhorizon

theorem testsMember_isoWeekday (s : Selection 7) (d : Day) :
    testsMember 8 s d.isoWeekday = .ok (s.admitsWeekday d) :=
  testsMember_eq s (Nat.le_add_left 1 _) (by have := d.weekday.isLt; unfold Day.isoWeekday; omega)
    (by decide)

theorem admitsMonthDay_eq_of_ok {s : Selection 33} {b : Bool} (h : s.admitsMonthDay d = .ok b) :
    admitsMonthDay s d = .ok b := by
  have hone : 1 ≤ d.dayOfMonth := d.date_isReal.2.2.1
  have hle : d.dayOfMonth ≤ 31 := d.date_isReal.2.2.2.trans (monthLength_le _ _)
  have htest : testsMember 64 s d.dayOfMonth = .ok (s.contains (d.dayOfMonth - 1)) :=
    testsMember_eq s hone (by omega) (le_refl 64)
  have hfirst := d.firstYear_le_year
  have hlast := d.year_le_lastYear
  have hyear : FitsInt32 (d.year + 1) := fitsInt32_of_mem (by omega) (by omega)
  have hlength : daysInMonth d.year d.month = .ok (monthLength d.year d.month) :=
    daysInMonth_eq_of_ok hyear d.month_range.2 d.lastDayOfMonth_eq
  have hword : word32 (d.dayOfMonth + 1) = .ok (d.dayOfMonth + 1) :=
    word32_eq (n := d.dayOfMonth + 1) (by omega)
  rw [Selection.admitsMonthDay, d.lastDayOfMonth_eq] at h
  rw [admitsMonthDay, htest, ok_bind]
  by_cases hbit : s.contains (d.dayOfMonth - 1) = true
  · rw [if_pos hbit, Except.ok.injEq] at h
    rw [if_pos hbit, ← h]
    rfl
  · rw [if_neg hbit] at h
    rw [if_neg hbit, hlength, ok_bind, hword, ok_bind]
    cases h
    rfl

theorem admitsMonth_eq (selected : Option (Selection 12)) (d : Day) :
    admitsMonth selected d = .ok (selected.all fun s => s.admitsMonth d) := by
  cases selected with
  | none => rfl
  | some s => exact testsMember_eq s d.month_range.1 (d.month_range.2.trans (by decide)) (by decide)

theorem admitsMonthly_eq_of_ok {days : Selection 33} {selected : Option (Selection 12)} {b : Bool}
    (h : Search.admitsMonthly days selected d = .ok b) : admitsMonthly days selected d = .ok b := by
  rw [Search.admitsMonthly] at h
  rw [admitsMonthly, admitsMonth_eq, ok_bind]
  split at h
  · rename_i hmonth
    rw [if_pos hmonth]
    exact admitsMonthDay_eq_of_ok h
  · rename_i hmonth
    rw [if_neg hmonth]
    cases h
    rfl

/-- On machine integers every search gives its answer. No number leaves its type, no mask is shifted
out of its width, no day before the first one is looked for, and the loops end within the years and
the days between the ends of the calendar. -/
theorem nextOccurrence_never_breaches (rule : Rule) (reference anchor : Day) :
    nextOccurrence reference anchor rule = .ok (rule.nextOccurrence reference anchor) ∧
    ∀ cause, rule.nextOccurrence reference anchor ≠ .error (.fault cause) := by
  constructor
  · cases rule with
    | yearly => exact yearly_eq reference anchor
    | everyDays period => exact everyDays_eq reference anchor period
    | weekly days =>
      exact firstAdmitted_eq (fun _ => rfl) (testsMember_isoWeekday days) (by decide) _ _
    | monthly days selected =>
      have hexact := admitsMonthly_eq days selected
      exact firstAdmitted_eq hexact (fun d => admitsMonthly_eq_of_ok (hexact d)) (by decide) _ _
  · intro cause h
    rcases Rule.nextOccurrence_eq_error_iff.mp h with ⟨hcause, -⟩ | ⟨hcause, -⟩
    · cases hcause
    · cases hcause

/-- The checks can fail: before the first year the length of the December is out of reach, and so is
the next year of the last one in 32 bits. -/
example : daysInMonth (firstYear - 1) 12 = .error .beforeFirstDay ∧
    daysInMonth (2 ^ 31 - 1) 12 = .error .wraps := by
  decide

end FixedWidth

end Agenda
