import Agenda.Proofs.Calendar.LeapDay
import Agenda.Proofs.Rule.NextOccurrence

/-!
# The horizon of monthly searches

A listed number that names a day in every year is met again within 366 days. All other matching
days are leap days, so the horizon is too short only for a rule that matches nothing but leap days,
and only from the last leap day before a century year without one on, for nearly two years.
-/

namespace Agenda

open Search

/-- The number names a day of the month in every year. -/
def NamesEveryYear (k : Int) (month : Nat) : Prop :=
  k = -1 ∨ k = -2 ∨ (1 ≤ k ∧ k ≤ commonMonthLength month)

/-- The date that the number names in the month of the year. -/
def namedDate (year : Int) (month : Nat) (k : Int) : Date :=
  ⟨year, month,
    if k = -1 then monthLength year month
    else if k = -2 then monthLength year month - 1
    else k.toNat⟩

section NamedDate

variable {k : Int} {month : Nat}

theorem two_le_monthLength (year : Int) (month : Nat) : 2 ≤ monthLength year month := by
  unfold monthLength
  split <;> (try split) <;> omega

theorem NamesEveryYear.isReal (hk : NamesEveryYear k month) (hmonth : 1 ≤ month ∧ month ≤ 12)
    (year : Int) : (namedDate year month k).IsReal := by
  have htwo := two_le_monthLength year month
  have hcommon := commonMonthLength_le year month
  refine ⟨hmonth.1, hmonth.2, ?_⟩
  simp only [namedDate]
  rcases hk with rfl | rfl | ⟨hone, hle⟩
  · simp only [if_true]
    omega
  · simp
    omega
  · rw [if_neg (by omega), if_neg (by omega)]
    omega

theorem NamesEveryYear.isNamedBy (hk : NamesEveryYear k month) (year : Int) :
    (namedDate year month k).IsNamedBy k := by
  have htwo := two_le_monthLength year month
  simp only [Date.IsNamedBy, namedDate]
  rcases hk with rfl | rfl | ⟨hone, -⟩
  · simp
  · simp
    omega
  · rw [if_neg (by omega), if_neg (by omega)]
    omega

/-- From a year to the next one a named day moves by 366 days at most. -/
theorem NamesEveryYear.number_succ_le (hk : NamesEveryYear k month) (year : Int) :
    (namedDate (year + 1) month k).number ≤ (namedDate year month k).number + 366 := by
  have hthis := leapDays_le_one year
  have hnext := leapDays_le_one (year + 1)
  simp only [namedDate, Date.number, yearStart_succ, daysThrough_eq_add (year + 1),
    daysThrough_eq_add year, monthLength_eq_add (year + 1), monthLength_eq_add year]
  rcases hk with rfl | rfl | ⟨hone, -⟩
  · split_ifs <;> omega
  · split_ifs <;> omega
  · split_ifs <;> omega

theorem NamesEveryYear.exists_number_le (hk : NamesEveryYear k month)
    (hmonth : 1 ≤ month ∧ month ≤ 12) (n : Int) :
    ∃ year, n < (namedDate year month k).number ∧ (namedDate year month k).number ≤ n + 366 := by
  have hlt := yearStart_yearOfNumber_lt n
  have hle := le_yearStart_yearOfNumber n
  generalize yearOfNumber n = year at hlt hle
  -- the named days of the years before and after that of `n` lie before and after `n`
  have hbefore := (hk.isReal hmonth (year - 1)).number_le_yearStart
  have hafter := (hk.isReal hmonth (year + 1)).yearStart_lt_number
  have hfirst := hk.number_succ_le (year - 1)
  have hsecond := hk.number_succ_le year
  change (namedDate (year - 1) month k).number ≤ yearStart (year - 1 + 1) at hbefore
  change yearStart (year + 1) < (namedDate (year + 1) month k).number at hafter
  rw [sub_add_cancel] at hbefore hfirst
  by_cases hn : n < (namedDate year month k).number
  · exact ⟨year, hn, by omega⟩
  · exact ⟨year + 1, by omega, by omega⟩

end NamedDate

/-- A listed number names a day in every year, in an allowed month. -/
def RecursYearly (days : Selection 33) (selected : Option (Selection 12)) : Prop :=
  ∃ month k, (1 ≤ month ∧ month ≤ 12) ∧ AllowsMonth selected month ∧ monthDays.Lists days k ∧
    NamesEveryYear k month

/-- Every listed number counts from the first day of the month and is beyond the longest length of
every allowed month. -/
def BeyondMonths (days : Selection 33) (selected : Option (Selection 12)) : Prop :=
  ∀ k, monthDays.Lists days k → 1 ≤ k ∧
    ∀ month, 1 ≤ month ∧ month ≤ 12 → AllowsMonth selected month → leapMonthLength month < k

/-- Every matching day is a 29th of February. -/
def MatchesLeapDaysOnly (days : Selection 33) (selected : Option (Selection 12)) : Prop :=
  ∀ d : Day, MatchesMonthly days selected d.date → d.date = leapDate d.year

section Matching

variable {days : Selection 33} {selected : Option (Selection 12)} {x : Date}

theorem matchesMonthly_iff : MatchesMonthly days selected x ↔
    AllowsMonth selected x.month ∧ ∃ k, monthDays.Lists days k ∧ x.IsNamedBy k := by
  constructor
  · rintro ⟨hmonth, i, hi, hname⟩
    exact ⟨hmonth, _, monthDays.lists_value.mpr hi, hname⟩
  · rintro ⟨hmonth, k, ⟨i, hi, rfl⟩, hname⟩
    exact ⟨hmonth, i, hi, hname⟩

theorem BeyondMonths.not_matchesMonthly (h : BeyondMonths days selected) (hx : x.IsReal) :
    ¬ MatchesMonthly days selected x := by
  rw [matchesMonthly_iff]
  rintro ⟨hmonth, k, hk, hname⟩
  obtain ⟨hone, hlong⟩ := h k hk
  have hlt := hlong x.month ⟨hx.1, hx.2.1⟩ hmonth
  have hday := hx.2.2.2
  have hlength := monthLength_le_leapMonthLength x.year x.month
  unfold Date.IsNamedBy at hname
  omega

theorem RecursYearly.exists_day (h : RecursYearly days selected) {n : Int}
    (hfirst : Day.first.number ≤ n) (hlast : n + 366 ≤ Day.last.number) :
    ∃ d : Day, n < d.number ∧ d.number ≤ n + 366 ∧ MatchesMonthly days selected d.date := by
  obtain ⟨month, k, hmonth, hallowed, hlists, hk⟩ := h
  obtain ⟨year, hlt, hle⟩ := hk.exists_number_le hmonth n
  obtain ⟨d, hd, hdate⟩ := Day.exists_date_eq (hk.isReal hmonth year) (by omega) (by omega)
  refine ⟨d, by omega, by omega, ?_⟩
  rw [matchesMonthly_iff, hdate]
  exact ⟨hallowed, k, hlists, hk.isNamedBy year⟩

/-- A rule that matches a date at all matches one in every year, or all leap days. -/
theorem recursYearly_or_leapDate (hx : x.IsReal) (h : MatchesMonthly days selected x) :
    RecursYearly days selected ∨
      (x = leapDate x.year ∧ ∀ year, MatchesMonthly days selected (leapDate year)) := by
  rw [matchesMonthly_iff] at h
  obtain ⟨hmonth, k, hlists, hname⟩ := h
  by_cases hk : NamesEveryYear k x.month
  · exact .inl ⟨x.month, k, ⟨hx.1, hx.2.1⟩, hmonth, hlists, hk⟩
  · have hone := hx.2.2.1
    have hday : k = x.day ∧ commonMonthLength x.month < x.day := by
      unfold NamesEveryYear at hk
      unfold Date.IsNamedBy at hname
      omega
    obtain ⟨htwo, htwentynine, -⟩ := eq_leapDay_of_commonMonthLength_lt hday.2 hx.2.2.2
    refine .inr ⟨?_, ?_⟩
    · rw [leapDate, ← htwo, ← htwentynine]
    · intro year
      rw [matchesMonthly_iff]
      rw [htwo] at hmonth
      refine ⟨hmonth, k, hlists, .inl ?_⟩
      rw [hday.1, htwentynine]
      rfl

end Matching

def february : Selection 12 := ⟨.twoPow 12 1, by decide⟩

def twentyNinth : Selection 33 := ⟨.twoPow 33 28, by decide⟩

theorem eq_two_of_allowsMonth_february {month : Nat} (h : AllowsMonth (some february) month) :
    month = 2 := by
  have hfebruary : ∀ i, i ∈ february → i = 1 := by decide
  obtain ⟨i, hi, hvalue⟩ := h february rfl
  rw [hfebruary i hi] at hvalue
  exact Int.ofNat.inj hvalue.symm

theorem matchesLeapDaysOnly_twentyNinth : MatchesLeapDaysOnly twentyNinth (some february) := by
  have htwentyNinth : ∀ i, i ∈ twentyNinth → monthDays.value i = 29 := by decide
  rintro d ⟨hmonth, i, hi, hname⟩
  rw [htwentyNinth i hi] at hname
  have hday : d.date.day = 29 := by
    unfold Date.IsNamedBy at hname
    omega
  rw [leapDate, ← eq_two_of_allowsMonth_february hmonth, ← hday]
  rfl

theorem exists_matchesMonthly_twentyNinth : ∃ d, Day.ofDate? ⟨1904, 2, 29⟩ = some d ∧
    MatchesMonthly twentyNinth (some february) d.date := by
  obtain ⟨d, hd⟩ :=
    Day.exists_ofDate?_eq_some (x := ⟨1904, 2, 29⟩) (by decide) (by decide) (by decide)
  refine ⟨d, hd, ?_⟩
  rw [Day.ofDate?_eq_some_iff.mp hd]
  decide

namespace Rule

variable {days : Selection 33} {selected : Option (Selection 12)} {reference anchor : Day}

theorem exists_monthly_le {d : Day} (hd : MatchesMonthly days selected d.date)
    (hstart : scanStart reference anchor ≤ d.number)
    (hhorizon : d.number < scanStart reference anchor + 2196) :
    ∃ o, (monthly days selected).nextOccurrence reference anchor = .ok o ∧ o.day ≤ d := by
  have hlast := d.number_le_last
  have hover : ¬ (monthly days selected).Overflows reference anchor := by
    rintro (hlt | ⟨hnone, -⟩)
    · omega
    · exact hnone d hstart (by omega) hd
  have hexhaust : ¬ (monthly days selected).Exhausts reference anchor := by
    rintro ⟨hnone, -⟩
    exact hnone d hstart hhorizon hd
  obtain ⟨o, ho⟩ := exists_nextOccurrence_iff.mpr ⟨hover, hexhaust⟩
  obtain ⟨hanchor, hreference⟩ := lt_of_scanStart_le hstart
  exact ⟨o, ho, (isNext_of_nextOccurrence ho).le_of_occurs d ⟨hanchor, hd⟩ hreference⟩

theorem monthly_le_of_recursYearly (h : RecursYearly days selected)
    (hlast : max anchor.number reference.number + 366 ≤ Day.last.number) :
    ∃ o, (monthly days selected).nextOccurrence reference anchor = .ok o ∧
      o.day.number ≤ max anchor.number reference.number + 366 := by
  have hfirst : Day.first.number ≤ max anchor.number reference.number :=
    anchor.first_le_number.trans (le_max_left _ _)
  obtain ⟨d, hlt, hle, hd⟩ := h.exists_day hfirst hlast
  have hstart : scanStart reference anchor ≤ d.number ∧
      d.number < scanStart reference anchor + 2196 := by
    unfold scanStart
    omega
  obtain ⟨o, ho, hod⟩ := exists_monthly_le hd hstart.1 hstart.2
  rw [Day.le_def] at hod
  exact ⟨o, ho, by omega⟩

theorem monthly_eq_error_of_not_matches (h : ∀ d : Day, ¬ MatchesMonthly days selected d.date) :
    ∃ e, (monthly days selected).nextOccurrence reference anchor = .error e := by
  cases hanswer : (monthly days selected).nextOccurrence reference anchor with
  | error e => exact ⟨e, rfl⟩
  | ok o => exact absurd (isNext_of_nextOccurrence hanswer).occurs.2 (h o.day)

/-- A listed number that names a day in every year is answered within 366 days, and numbers that
are too large for every allowed month never are. -/
theorem monthly_recurrence (days : Selection 33) (selected : Option (Selection 12)) :
    (RecursYearly days selected → ∀ reference anchor : Day,
      max anchor.number reference.number + 366 ≤ Day.last.number →
      ∃ o, (monthly days selected).nextOccurrence reference anchor = .ok o ∧
        o.day.number ≤ max anchor.number reference.number + 366) ∧
    (BeyondMonths days selected → ∀ reference anchor : Day,
      ∃ e, (monthly days selected).nextOccurrence reference anchor = .error e) := by
  constructor
  · intro h reference anchor hlast
    exact monthly_le_of_recursYearly h hlast
  · intro h reference anchor
    exact monthly_eq_error_of_not_matches fun d => h.not_matchesMonthly d.date_isReal

/-- The rule of the last of February goes from the 28th of 2023 to the 29th of 2024 in 366 days,
and the rule of the 30th of February never has an answer. -/
theorem monthly_recurrence_february : ∃ last thirty selected reference o e,
    Rule.parse "m -1 2" = .ok (monthly last selected) ∧
    Rule.parse "m 30 2" = .ok (monthly thirty selected) ∧
    Day.ofDate? ⟨2023, 2, 28⟩ = some reference ∧
    RecursYearly last selected ∧ BeyondMonths thirty selected ∧
    (monthly last selected).nextOccurrence reference reference = .ok o ∧
    o.day.number ≤ max reference.number reference.number + 366 ∧
    (monthly thirty selected).nextOccurrence reference reference = .error e := by
  have hlast : RecursYearly ⟨.twoPow 33 31, by decide⟩ (some february) :=
    ⟨2, -1, by decide, by decide, by decide, .inl rfl⟩
  have hthirty : BeyondMonths ⟨.twoPow 33 29, by decide⟩ (some february) := by
    have hvalue : ∀ i, i ∈ (⟨.twoPow 33 29, by decide⟩ : Selection 33) →
        monthDays.value i = 30 := by
      decide
    rintro k ⟨i, hi, rfl⟩
    rw [hvalue i hi]
    refine ⟨by decide, ?_⟩
    intro month _ hallowed
    rw [eq_two_of_allowsMonth_february hallowed]
    decide
  obtain ⟨o, ho, hle⟩ := (monthly_recurrence _ _).1 hlast ⟨738579, by decide, by decide⟩
    ⟨738579, by decide, by decide⟩ (by decide)
  obtain ⟨e, he⟩ := (monthly_recurrence _ _).2 hthirty ⟨738579, by decide, by decide⟩
    ⟨738579, by decide, by decide⟩
  exact ⟨_, _, _, _, o, e, by decide, by decide, by decide, hlast, hthirty, ho, hle, he⟩

theorem exhausts_iff :
    (monthly days selected).Exhausts reference anchor ↔
      scanStart reference anchor + 2196 ≤ Day.last.number ∧
        ∀ d : Day, max anchor.number reference.number < d.number →
          d.number ≤ max anchor.number reference.number + 2196 →
            ¬ MatchesMonthly days selected d.date := by
  constructor
  · rintro ⟨hnone, hlast⟩
    refine ⟨hlast, fun d hlt hle => hnone d ?_ ?_⟩ <;> unfold scanStart <;> omega
  · rintro ⟨hlast, hnone⟩
    refine ⟨fun d hle hlt => hnone d ?_ ?_, hlast⟩ <;> unfold scanStart at * <;> omega

theorem add_le_last_of_year_le {d : Day} (h : d.year ≤ 9999) :
    d.number + 2197 ≤ Day.last.number := by
  have hend : d.date.number ≤ yearStart (d.year + 1) := d.date_isReal.number_le_yearStart
  have hmono : yearStart (d.year + 1) ≤ yearStart 10000 := yearStart_mono (by omega)
  have hfar : yearStart 10000 + 2197 ≤ Day.last.number := by decide
  rw [Day.number_date] at hend
  omega

theorem scanStart_add_le_last (hreference : reference.year ≤ 9999) (hanchor : anchor.year ≤ 9999) :
    scanStart reference anchor + 2196 ≤ Day.last.number := by
  have href := add_le_last_of_year_le hreference
  have hanc := add_le_last_of_year_le hanchor
  unfold scanStart
  omega

theorem exhausts_of_inLeapGap (hleap : MatchesLeapDaysOnly days selected)
    (hgap : InLeapGap (max anchor.number reference.number))
    (hlast : scanStart reference anchor + 2196 ≤ Day.last.number) :
    (monthly days selected).Exhausts reference anchor := by
  refine exhausts_iff.mpr ⟨hlast, ?_⟩
  intro d hlt hle hd
  have hdate := hleap d hd
  have hreal := d.date_isReal
  rw [hdate, leapDate_isReal_iff] at hreal
  have hnumber : d.number = (leapDate d.year).number := by rw [← hdate, Day.number_date]
  have hfar := hgap.lt_number_leapDate hreal (by omega)
  omega

theorem inLeapGap_of_exhausts (h : (monthly days selected).Exhausts reference anchor)
    {d : Day} (hd : MatchesMonthly days selected d.date) :
    MatchesLeapDaysOnly days selected ∧ InLeapGap (max anchor.number reference.number) := by
  obtain ⟨hlast, hnone⟩ := exhausts_iff.mp h
  have hfirst := first_lt_scanStart reference anchor
  unfold scanStart at hlast hfirst
  have hyearly : ¬ RecursYearly days selected := by
    intro hrecurs
    obtain ⟨e, hlt, hle, he⟩ := hrecurs.exists_day (Int.lt_add_one_iff.mp hfirst) (by omega)
    exact hnone e hlt (by omega) he
  constructor
  · intro e he
    exact ((recursYearly_or_leapDate e.date_isReal he).resolve_left hyearly).1
  · by_contra hgap
    obtain ⟨year, hleap, hlt, hle⟩ := exists_leapDate_le hgap
    obtain ⟨e, he, hdate⟩ := Day.exists_date_eq ((leapDate_isReal_iff year).mpr hleap)
      (by omega) (by omega)
    have hall := ((recursYearly_or_leapDate d.date_isReal hd).resolve_left hyearly).2 year
    rw [← hdate] at hall
    exact hnone e (by omega) (by omega) hall

theorem monthly_exhausts_iff (hreference : reference.year ≤ 9999) (hanchor : anchor.year ≤ 9999) :
    (monthly days selected).Exhausts reference anchor ↔
      (∀ d : Day, ¬ MatchesMonthly days selected d.date) ∨
        (MatchesLeapDaysOnly days selected ∧
          InLeapGap (max anchor.number reference.number)) := by
  have hlast := scanStart_add_le_last hreference hanchor
  constructor
  · intro h
    by_cases hmatch : ∃ d : Day, MatchesMonthly days selected d.date
    · obtain ⟨d, hd⟩ := hmatch
      exact .inr (inLeapGap_of_exhausts h hd)
    · exact .inl (not_exists.mp hmatch)
  · rintro (hnone | ⟨hleap, hgap⟩)
    · exact exhausts_iff.mpr ⟨hlast, fun d _ _ => hnone d⟩
    · exact exhausts_of_inLeapGap hleap hgap hlast

theorem not_overflows_of_year_le (hreference : reference.year ≤ 9999)
    (hanchor : anchor.year ≤ 9999) : ¬ (monthly days selected).Overflows reference anchor := by
  have hlast := scanStart_add_le_last hreference hanchor
  rintro (hlt | ⟨-, hle⟩) <;> omega

/-- In the years of four digits a monthly search exhausts its horizon for a rule that matches no
day, and for one that matches leap days only, in the gap around a century year without one. In
all other cases it answers a day. -/
theorem monthly_horizonExhausted_iff (days : Selection 33) (selected : Option (Selection 12))
    (hreference : reference.year ≤ 9999) (hanchor : anchor.year ≤ 9999) :
    ((monthly days selected).nextOccurrence reference anchor =
        .error (.horizonExhausted (monthly days selected) monthlyHorizon) ↔
      (∀ d : Day, ¬ MatchesMonthly days selected d.date) ∨
        (MatchesLeapDaysOnly days selected ∧
          InLeapGap (max anchor.number reference.number))) ∧
    ((∃ o, (monthly days selected).nextOccurrence reference anchor = .ok o) ↔
      (∃ d : Day, MatchesMonthly days selected d.date) ∧
        ¬ (MatchesLeapDaysOnly days selected ∧
          InLeapGap (max anchor.number reference.number))) := by
  have hover : ¬ (monthly days selected).Overflows reference anchor :=
    not_overflows_of_year_le hreference hanchor
  rw [exists_nextOccurrence_iff, nextOccurrence_eq_error_iff,
    monthly_exhausts_iff hreference hanchor]
  simp only [hover, reduceCtorEq, and_false, false_or, true_and, not_false_iff, not_or,
    not_forall, not_not]

/-- At the end of a gap the rule of the 29th of February has no answer, and one day later it has. -/
theorem monthly_horizonExhausted_iff_1898 : ∃ days selected before after,
    Rule.parse "m 29 2" = .ok (monthly days selected) ∧
    Day.ofDate? ⟨1898, 2, 22⟩ = some before ∧ Day.ofDate? ⟨1898, 2, 23⟩ = some after ∧
    (monthly days selected).nextOccurrence before before =
      .error (.horizonExhausted (monthly days selected) monthlyHorizon) ∧
    ∃ o, (monthly days selected).nextOccurrence after after = .ok o := by
  obtain ⟨before, hbefore⟩ :=
    Day.exists_ofDate?_eq_some (x := ⟨1898, 2, 22⟩) (by decide) (by decide) (by decide)
  obtain ⟨after, hafter⟩ :=
    Day.exists_ofDate?_eq_some (x := ⟨1898, 2, 23⟩) (by decide) (by decide) (by decide)
  have hyearBefore : before.year ≤ 9999 := by
    rw [Day.year_of_ofDate? hbefore]
    decide
  have hyearAfter : after.year ≤ 9999 := by
    rw [Day.year_of_ofDate? hafter]
    decide
  have hgap : InLeapGap (max before.number before.number) := by
    rw [max_self, Day.number_of_ofDate? hbefore]
    exact ⟨1900, by decide, by decide, by decide, le_rfl⟩
  have hnoGap : ¬ InLeapGap (max after.number after.number) := by
    rw [max_self, Day.number_of_ofDate? hafter]
    rintro ⟨century, hhundred, hcommon, hstart, hend⟩
    rw [number_le_gapEnd_iff ⟨hhundred, hcommon⟩] at hend
    rw [number_leapDate] at hstart hend
    have hnumber : (⟨1898, 2, 23⟩ : Date).number = 692919 := rfl
    unfold yearStart at hstart hend
    omega
  obtain ⟨leapDay, -, hmatch⟩ := exists_matchesMonthly_twentyNinth
  have hexhausts := (monthly_horizonExhausted_iff twentyNinth (some february) hyearBefore
    hyearBefore).1.mpr (.inr ⟨matchesLeapDaysOnly_twentyNinth, hgap⟩)
  have hanswers := (monthly_horizonExhausted_iff twentyNinth (some february) hyearAfter
    hyearAfter).2.mpr ⟨⟨leapDay, hmatch⟩, fun h => hnoGap h.2⟩
  exact ⟨_, _, before, after, by decide, hbefore, hafter, hexhausts, hanswers⟩

/-- The rule of the 29th of February exhausts its horizon from the first of March 1896 on, although
it matches leap days, the next one in 1904. -/
theorem leapDay_exhausts_horizon : ∃ days selected start leapDay,
    Rule.parse "m 29 2" = .ok (monthly days selected) ∧
    Day.ofDate? ⟨1896, 3, 1⟩ = some start ∧ Day.ofDate? ⟨1904, 2, 29⟩ = some leapDay ∧
    MatchesMonthly days selected leapDay.date ∧
    (monthly days selected).nextOccurrence start start =
      .error (.horizonExhausted (monthly days selected) monthlyHorizon) ∧
    ¬ ((monthly days selected).nextOccurrence start start =
        .error (.horizonExhausted (monthly days selected) monthlyHorizon) ↔
      ∀ d : Day, ¬ MatchesMonthly days selected d.date) := by
  obtain ⟨start, hstart⟩ :=
    Day.exists_ofDate?_eq_some (x := ⟨1896, 3, 1⟩) (by decide) (by decide) (by decide)
  have hnumber := Day.number_of_ofDate? hstart
  have hgap : InLeapGap (max start.number start.number) := by
    rw [max_self, hnumber]
    exact ⟨1900, by decide, by decide, by decide, by decide⟩
  have hlast : scanStart start start + 2196 ≤ Day.last.number := by
    rw [scanStart, hnumber]
    decide
  have hexhausts := exhausts_of_inLeapGap matchesLeapDaysOnly_twentyNinth hgap hlast
  have herror := nextOccurrence_eq_error_iff.mpr (.inr ⟨rfl, hexhausts⟩)
  obtain ⟨leapDay, hleapDay, hmatch⟩ := exists_matchesMonthly_twentyNinth
  exact ⟨_, _, start, leapDay, by decide, hstart, hleapDay, hmatch, herror,
    fun hiff => hiff.mp herror leapDay hmatch⟩

end Rule

end Agenda
