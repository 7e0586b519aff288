import Agenda.Proofs.Calendar.Month
import Agenda.Rule.Search

/-!
# The occurrences of a rule

The days on which a rule falls due, counted from an anchor, are said here without a search: whole
years or whole periods after the anchor, or the later days whose weekday, or whose place in the
month and whose month, are listed. The next occurrence is the least one after a reference, and a
scan that tests every day from the day after the anchor on finds it.
-/

namespace Agenda

namespace Vocabulary

variable {n : Nat} (v : Vocabulary n)

/-- The number names a selected member. -/
def Lists (s : Selection n) (k : Int) : Prop := ∃ i, i ∈ s ∧ v.value i = k

instance (s : Selection n) (k : Int) : Decidable (v.Lists s k) :=
  inferInstanceAs (Decidable (∃ i, i ∈ s ∧ v.value i = k))

theorem value_injective {i j : Fin n} (h : v.value i = v.value j) : i = j := by
  have hi := (v.index?_eq_some_iff _ i).mpr h
  have hj := (v.index?_eq_some_iff _ j).mpr rfl
  exact Option.some.inj (hi.symm.trans hj)

@[simp] theorem lists_value {s : Selection n} {i : Fin n} : v.Lists s (v.value i) ↔ i ∈ s := by
  constructor
  · rintro ⟨j, hj, hvalue⟩
    rwa [← v.value_injective hvalue]
  · exact fun hi => ⟨i, hi, rfl⟩

end Vocabulary

/-- The number names the day of the month, literally or from the end of the month. -/
def Date.IsNamedBy (x : Date) (k : Int) : Prop :=
  k = x.day ∨ (k = -1 ∧ x.day = monthLength x.year x.month) ∨
    (k = -2 ∧ x.day + 1 = monthLength x.year x.month)

instance (x : Date) (k : Int) : Decidable (x.IsNamedBy k) := by
  unfold Date.IsNamedBy
  infer_instance

/-- The month is listed, or no months are. -/
def AllowsMonth (selected : Option (Selection 12)) (month : Nat) : Prop :=
  ∀ s ∈ selected, months.Lists s month

instance (selected : Option (Selection 12)) (month : Nat) :
    Decidable (AllowsMonth selected month) := by
  unfold AllowsMonth
  infer_instance

/-- A monthly rule matches the date: its month is allowed and a listed number names its day. -/
def MatchesMonthly (days : Selection 33) (selected : Option (Selection 12)) (x : Date) : Prop :=
  AllowsMonth selected x.month ∧ ∃ i, i ∈ days ∧ x.IsNamedBy (monthDays.value i)

instance (days : Selection 33) (selected : Option (Selection 12)) (x : Date) :
    Decidable (MatchesMonthly days selected x) := by
  unfold MatchesMonthly
  infer_instance

namespace Rule

/-- The day is an occurrence of the rule, counted from the anchor, which is none. -/
def Occurs (anchor d : Day) : Rule → Prop
  | yearly => ∃ k : Nat, 1 ≤ k ∧ d.date = anchor.date.addYears k
  | everyDays period => ∃ k : Nat, 1 ≤ k ∧ d.number = anchor.number + k * period.days
  | weekly days => anchor < d ∧ weekdays.Lists days d.isoWeekday
  | monthly days selected => anchor < d ∧ MatchesMonthly days selected d.date

variable {rule : Rule} {reference anchor d : Day}

theorem Occurs.anchor_lt (h : rule.Occurs anchor d) : anchor < d := by
  cases rule with
  | yearly =>
    obtain ⟨k, hk, hdate⟩ := h
    rw [Day.lt_def, ← Day.number_date anchor, ← Day.number_date d, hdate]
    apply anchor.date_isReal.number_lt_of_year_lt (anchor.date_isReal.addYears k)
    rw [Date.year_addYears]
    omega
  | everyDays period =>
    obtain ⟨k, hk, hnumber⟩ := h
    have hpos : 0 < k * period.days := Nat.mul_pos hk period.one_le
    rw [Day.lt_def, hnumber]
    omega
  | weekly days => exact h.1
  | monthly days selected => exact h.1

theorem occurs_yearly_iff : yearly.Occurs anchor d ↔
    anchor.year < d.year ∧ d.date = anchor.date.addYears (d.year - anchor.year) := by
  constructor
  · rintro ⟨k, hk, hdate⟩
    have hyear : d.year = anchor.year + k := (congrArg Date.year hdate).trans (by simp [Day.year])
    refine ⟨by omega, ?_⟩
    rw [hdate, hyear, add_sub_cancel_left]
  · rintro ⟨hlt, hdate⟩
    refine ⟨(d.year - anchor.year).toNat, by omega, ?_⟩
    rw [hdate, Int.toNat_of_nonneg (by omega)]

theorem occurs_everyDays_iff {period : Period} : (everyDays period).Occurs anchor d ↔
    anchor < d ∧ (d.number - anchor.number) % period.days = 0 := by
  constructor
  · intro h
    refine ⟨h.anchor_lt, ?_⟩
    obtain ⟨k, -, hnumber⟩ := h
    rw [hnumber, add_sub_cancel_left, Int.mul_emod_left]
  · rintro ⟨hlt, hmod⟩
    obtain ⟨q, hq⟩ := Int.dvd_of_emod_eq_zero hmod
    rw [Day.lt_def] at hlt
    have hpos : 0 < q := by
      by_contra hneg
      have hdays : (0 : Int) ≤ period.days := Int.natCast_nonneg _
      have hnonpos := mul_nonpos_of_nonneg_of_nonpos hdays (not_lt.mp hneg)
      omega
    refine ⟨q.toNat, by omega, ?_⟩
    rw [Int.toNat_of_nonneg hpos.le, mul_comm]
    omega

instance : Decidable (rule.Occurs anchor d) :=
  match rule with
  | yearly => decidable_of_iff' _ occurs_yearly_iff
  | everyDays _ => decidable_of_iff' _ occurs_everyDays_iff
  | weekly days => inferInstanceAs (Decidable (anchor < d ∧ weekdays.Lists days d.isoWeekday))
  | monthly days selected =>
    inferInstanceAs (Decidable (anchor < d ∧ MatchesMonthly days selected d.date))

/-- The least occurrence after the reference. -/
structure IsNext (rule : Rule) (reference anchor d : Day) : Prop where
  occurs : rule.Occurs anchor d
  reference_lt : reference < d
  le_of_occurs : ∀ e, rule.Occurs anchor e → reference < e → d ≤ e

end Rule

/-- The first day from `d` on that has the property. -/
def Day.find? (p : Day → Prop) [DecidablePred p] (d : Day) : Option Day :=
  if p d then some d
  else
    match h : d.next? with
    | none => none
    | some next =>
      have : next.number = d.number + 1 := next?_eq_some_iff.mp h
      next.find? p
termination_by (last.number - d.number).toNat
decreasing_by
  have hlast := next.number_le_last
  omega

theorem Day.find?_eq_some {p : Day → Prop} [DecidablePred p] {d e : Day} (hle : d ≤ e) (he : p e)
    (hfirst : ∀ x, d ≤ x → p x → e ≤ x) : d.find? p = some e := by
  fun_induction Day.find? p d with
  | case1 d hd =>
    have hle' := hfirst d (Int.le_refl _) hd
    rw [le_def] at hle hle'
    have heq : d.number = e.number := by omega
    rw [ext_number heq]
  | case2 d hd hnone =>
    have hlast := e.number_le_last
    rw [next?_eq_none_iff] at hnone
    rw [le_def] at hle
    have heq : d.number = e.number := by omega
    exact absurd (ext_number heq ▸ he) hd
  | case3 d hd next hnext hnumber ih =>
    have hne : d.number ≠ e.number := fun heq => hd (ext_number heq ▸ he)
    apply ih
    · rw [le_def] at hle ⊢
      omega
    · intro x hx hpx
      apply hfirst x _ hpx
      rw [le_def] at hx ⊢
      omega

namespace Rule

/-- Tests every day from the day after the anchor on. -/
def dayByDay? (rule : Rule) (reference anchor : Day) : Option Day :=
  anchor.next?.bind fun start => start.find? fun d => rule.Occurs anchor d ∧ reference < d

theorem IsNext.dayByDay?_eq {rule : Rule} {reference anchor d : Day}
    (h : rule.IsNext reference anchor d) : rule.dayByDay? reference anchor = some d := by
  have hlt := h.occurs.anchor_lt
  have hlast := d.number_le_last
  rw [Day.lt_def] at hlt
  obtain ⟨start, hstart⟩ : ∃ start, anchor.next? = some start := by
    rw [← Option.ne_none_iff_exists', Ne, Day.next?_eq_none_iff]
    omega
  have hnumber := Day.next?_eq_some_iff.mp hstart
  rw [dayByDay?, hstart, Option.bind_some]
  apply Day.find?_eq_some
  · rw [Day.le_def]
    omega
  · exact ⟨h.occurs, h.reference_lt⟩
  · exact fun x _ hx => h.le_of_occurs x hx.1 hx.2

end Rule

end Agenda
