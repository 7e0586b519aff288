import Agenda.Proofs.Rule.Occurrence

/-!
# The tests of a selection

A test of a day looks at single bits of a selection, and a relative place of the month at the
length of the month. It succeeds just when a listed number names the weekday, the month or the day
of the month. On a day of the calendar it always has an answer.
-/

namespace Agenda

theorem Selection.exists_mem {n : Nat} (s : Selection n) : ∃ i, i ∈ s := by
  by_contra hnone
  apply s.bits_ne_zero
  apply BitVec.eq_of_getLsbD_eq
  intro i hi
  rw [BitVec.getLsbD_zero, ← Bool.not_eq_true]
  exact fun hbit => hnone ⟨⟨i, hi⟩, hbit⟩

theorem value_weekday (d : Day) : weekdays.value d.weekday = d.isoWeekday := rfl

theorem admitsWeekday_eq (days : Selection 7) (d : Day) :
    days.admitsWeekday d = decide (weekdays.Lists days d.isoWeekday) := by
  rw [← value_weekday]
  simp only [Vocabulary.lists_value, Selection.mem_def, Selection.admitsWeekday,
    Bool.decide_eq_true]

theorem admitsMonth_eq (s : Selection 12) (d : Day) :
    s.admitsMonth d = decide (months.Lists s d.month) := by
  obtain ⟨hfirst, hlast⟩ := d.month_range
  have hvalue : months.value ⟨d.month - 1, by omega⟩ = d.month := by
    change ((d.month - 1 : Nat) : Int) + 1 = d.month
    omega
  rw [← hvalue]
  simp only [Vocabulary.lists_value, Selection.mem_def, Selection.admitsMonth,
    Bool.decide_eq_true]

theorem value_monthDays (i : Fin 33) : monthDays.value i =
    if i.val = lastPlace then -1 else if i.val = secondLastPlace then -2 else (i.val : Int) + 1 :=
  rfl

theorem value_monthDays_cases (i : Fin 33) :
    (i.val < lastPlace ∧ monthDays.value i = i.val + 1) ∨
      (i.val = lastPlace ∧ monthDays.value i = -1) ∨
        (i.val = secondLastPlace ∧ monthDays.value i = -2) := by
  rw [value_monthDays]
  unfold lastPlace secondLastPlace
  have hlt := i.isLt
  split_ifs <;> omega

theorem value_monthDays_of_lt {i : Fin 33} (h : i.val < lastPlace) :
    monthDays.value i = i.val + 1 := by
  rcases value_monthDays_cases i with ⟨-, hvalue⟩ | ⟨hlast, -⟩ | ⟨hsecond, -⟩
  · exact hvalue
  · omega
  · unfold lastPlace at h
    unfold secondLastPlace at hsecond
    omega

theorem exists_isNamedBy_iff {days : Selection 33} {x : Date} (hx : x.IsReal) :
    (∃ i, i ∈ days ∧ x.IsNamedBy (monthDays.value i)) ↔
      days.contains (x.day - 1) = true ∨
        (days.contains lastPlace = true ∧ x.day = monthLength x.year x.month) ∨
          (days.contains secondLastPlace = true ∧ x.day + 1 = monthLength x.year x.month) := by
  have hone := hx.2.2.1
  have hle := hx.2.2.2.trans (monthLength_le x.year x.month)
  constructor
  · rintro ⟨i, hi, hname⟩
    rw [Selection.mem_def] at hi
    unfold Date.IsNamedBy at hname
    rcases value_monthDays_cases i with ⟨-, hvalue⟩ | ⟨hplace, hvalue⟩ | ⟨hplace, hvalue⟩
    · have hindex : i.val = x.day - 1 := by omega
      exact .inl (hindex ▸ hi)
    · exact .inr (.inl ⟨hplace ▸ hi, by omega⟩)
    · exact .inr (.inr ⟨hplace ▸ hi, by omega⟩)
  · rintro (hbit | ⟨hbit, hday⟩ | ⟨hbit, hday⟩)
    · have hlt : x.day - 1 < lastPlace := by
        unfold lastPlace
        omega
      refine ⟨⟨x.day - 1, hlt.trans (by decide)⟩, hbit, .inl ?_⟩
      rw [value_monthDays_of_lt hlt]
      dsimp only
      omega
    · exact ⟨⟨lastPlace, by decide⟩, hbit, .inr (.inl ⟨rfl, hday⟩)⟩
    · exact ⟨⟨secondLastPlace, by decide⟩, hbit, .inr (.inr ⟨rfl, hday⟩)⟩

theorem admitsMonthDay_eq (days : Selection 33) (d : Day) :
    days.admitsMonthDay d =
      .ok (decide (∃ i, i ∈ days ∧ d.date.IsNamedBy (monthDays.value i))) := by
  rw [Selection.admitsMonthDay, d.lastDayOfMonth_eq, decide_eq_decide.mpr
    (exists_isNamedBy_iff d.date_isReal)]
  change (if days.contains (d.dayOfMonth - 1) = true then _ else _) =
    Except.ok (decide (days.contains (d.dayOfMonth - 1) = true ∨ _))
  by_cases hbit : days.contains (d.dayOfMonth - 1) = true
  · simp [hbit]
  · simp only [hbit, Bool.decide_or, Bool.decide_and, Bool.decide_eq_true]
    rfl

theorem allowsMonth_eq (selected : Option (Selection 12)) (d : Day) :
    (selected.all fun s => s.admitsMonth d) = decide (AllowsMonth selected d.month) := by
  cases selected with
  | none => rfl
  | some s => simp [AllowsMonth, admitsMonth_eq]

theorem admitsMonthly_eq (days : Selection 33) (selected : Option (Selection 12)) (d : Day) :
    Search.admitsMonthly days selected d = .ok (decide (MatchesMonthly days selected d.date)) := by
  rw [Search.admitsMonthly, allowsMonth_eq, admitsMonthDay_eq]
  by_cases hmonth : AllowsMonth selected d.month
  · rw [decide_eq_true hmonth, if_pos rfl]
    exact congrArg Except.ok (decide_eq_decide.mpr (iff_and_self.mpr fun _ => hmonth))
  · rw [decide_eq_false hmonth, if_neg Bool.false_ne_true]
    exact congrArg Except.ok (decide_eq_false fun h => hmonth h.1).symm

end Agenda
