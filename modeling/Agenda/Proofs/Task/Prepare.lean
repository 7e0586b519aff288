import Agenda.Proofs.Rule.NextOccurrence
import Agenda.Proofs.Task.Completion

/-!
# What preparing a task comes to

A task is refused for the first of three reasons: it has no title, its date is no day, or its rule
has no next date. A task that is kept has a title, no blanks around its title and its rule, the
written form of a day from today on as its date, and a rule that is read or none. It would be kept
in the same form again.
-/

namespace Agenda

open Text

variable {today day d : Day}

namespace Task

theorem prepare_withId (task : Task) (id : String) (today : Day) :
    { task with id := id }.prepare today =
      (task.prepare today).map fun kept => { kept with id := id } := by
  unfold prepare
  dsimp only
  split
  · rfl
  · split
    · rfl
    · split <;> rfl

/-- The date that a task is handed in with, which is that of today when it has none. -/
def givenDate (task : Task) (today : Day) : String :=
  if trim task.date = "" then today.text else trim task.date

/-- The task without the blanks around its title and its rule, on a day. -/
def keptOn (task : Task) (d : Day) : Task :=
  { task with title := trim task.title, repeatRule := trim task.repeatRule, date := d.text }

/-- What a task comes to when it is prepared: each result with all that leads to it, in the order in
which the errors are found. A past day moves to today, or to the next occurrence of the rule. -/
inductive Verdict (task : Task) (today : Day) : Except TaskError Task → Prop
  | emptyTitle (htitle : trim task.title = "") : Verdict task today (.error .emptyTitle)
  | badDate (htitle : trim task.title ≠ "")
      (hdate : ∀ x : Date, ¬ x.IsSpelledBy (task.givenDate today).toList) :
      Verdict task today (.error .badDate)
  | repeatRule {day : Day} {e : NextDateError} (htitle : trim task.title ≠ "")
      (hday : day.date.IsSpelledBy (task.givenDate today).toList)
      (hrule : trim task.repeatRule ≠ "")
      (he : nextDate today (task.givenDate today) (trim task.repeatRule) = .error e) :
      Verdict task today (.error (.repeatRule e))
  | once {day : Day} (htitle : trim task.title ≠ "")
      (hday : day.date.IsSpelledBy (task.givenDate today).toList)
      (hrule : trim task.repeatRule = "") :
      Verdict task today (.ok (task.keptOn (if day < today then today else day)))
  | repeating {day : Day} {rule : Rule} {o : Occurrence} (htitle : trim task.title ≠ "")
      (hday : day.date.IsSpelledBy (task.givenDate today).toList)
      (hrule : Rule.parse task.repeatRule = .ok rule)
      (ho : rule.nextOccurrence today day = .ok o) :
      Verdict task today (.ok (task.keptOn (if day < today then o.day else day)))

variable {task kept : Task} {r : Except TaskError Task} {rule : Rule} {e : NextDateError}

theorem prepare_eq_emptyTitle (htitle : trim task.title = "") (today : Day) :
    task.prepare today = .error .emptyTitle :=
  if_pos htitle

theorem prepare_eq_badDate (htitle : trim task.title ≠ "")
    (hdate : Day.ofText? (task.givenDate today) = none) :
    task.prepare today = .error .badDate := by
  rw [givenDate] at hdate
  simp only [prepare, if_neg htitle, hdate]

theorem prepare_eq_of_day (htitle : trim task.title ≠ "")
    (hday : Day.ofText? (task.givenDate today) = some day) :
    task.prepare today =
      (nextDate? today (task.givenDate today) (trim task.repeatRule)).map fun next =>
        { task.keptOn day with
          date := if day < today then next.getD today.text else day.text } := by
  obtain ⟨htext, -⟩ := Day.ofText?_eq_some_iff.mp hday
  rw [← htext]
  unfold givenDate at hday ⊢
  simp only [prepare, if_neg htitle, hday]
  generalize nextDate? today _ _ = outcome
  cases outcome <;> rfl

theorem nextDate_givenDate (hday : day.date.IsSpelledBy (task.givenDate today).toList)
    (hrule : Rule.parse task.repeatRule = .ok rule) {o : Occurrence}
    (ho : rule.nextOccurrence today day = .ok o) :
    nextDate today (task.givenDate today) (trim task.repeatRule) = .ok o.day.text := by
  rw [← Rule.parse_trim] at hrule
  rw [NextDate.nextDate_of_isSpelledBy (NextDate.isSpelledBy_trim hday) hrule, ho]

theorem exists_occurrence_of_nextDate {next : String}
    (hday : day.date.IsSpelledBy (task.givenDate today).toList)
    (h : nextDate today (task.givenDate today) (trim task.repeatRule) = .ok next) :
    ∃ (rule : Rule) (o : Occurrence), Rule.parse task.repeatRule = .ok rule ∧
      rule.nextOccurrence today day = .ok o := by
  obtain ⟨rule, o, hrule, ho⟩ :=
    NextDate.exists_occurrence_of_nextDate (NextDate.isSpelledBy_trim hday) h
  rw [Rule.parse_trim] at hrule
  exact ⟨rule, o, hrule, ho⟩

theorem Verdict.prepare_eq (h : task.Verdict today r) : task.prepare today = r := by
  cases h with
  | emptyTitle htitle => exact prepare_eq_emptyTitle htitle today
  | badDate htitle hdate => exact prepare_eq_badDate htitle (Day.ofText?_eq_none_iff.mpr hdate)
  | repeatRule htitle hday hrule he =>
    have hread := Day.ofText?_eq_some_iff_isSpelledBy.mpr hday
    rw [prepare_eq_of_day htitle hread, nextDate?, if_neg hrule, he]
    rfl
  | once htitle hday hrule =>
    have hread := Day.ofText?_eq_some_iff_isSpelledBy.mpr hday
    rw [prepare_eq_of_day htitle hread, nextDate?, if_pos hrule]
    split <;> rfl
  | repeating htitle hday hrule ho =>
    have hread := Day.ofText?_eq_some_iff_isSpelledBy.mpr hday
    rw [prepare_eq_of_day htitle hread, nextDate?, if_neg (Rule.trim_ne_empty_of_parse hrule),
      nextDate_givenDate hday hrule ho]
    split <;> rfl

theorem verdict_prepare (task : Task) (today : Day) : task.Verdict today (task.prepare today) := by
  by_cases htitle : trim task.title = ""
  · rw [prepare_eq_emptyTitle htitle]
    exact .emptyTitle htitle
  cases hread : Day.ofText? (task.givenDate today) with
  | none =>
    rw [prepare_eq_badDate htitle hread]
    exact .badDate htitle (Day.ofText?_eq_none_iff.mp hread)
  | some day =>
    have hday := Day.ofText?_eq_some_iff_isSpelledBy.mp hread
    by_cases hrule : trim task.repeatRule = ""
    · have h := Verdict.once htitle hday hrule
      rwa [h.prepare_eq]
    · cases hnext : nextDate today (task.givenDate today) (trim task.repeatRule) with
      | error e =>
        have h := Verdict.repeatRule htitle hday hrule hnext
        rwa [h.prepare_eq]
      | ok next =>
        obtain ⟨rule, o, hparse, ho⟩ := exists_occurrence_of_nextDate hday hnext
        have h := Verdict.repeating htitle hday hparse ho
        rwa [h.prepare_eq]

/-- The result is the one that the task comes to. -/
theorem prepare_eq_iff : task.prepare today = r ↔ task.Verdict today r := by
  constructor
  · rintro rfl
    exact verdict_prepare task today
  · exact Verdict.prepare_eq

theorem prepare_eq_emptyTitle_iff :
    task.prepare today = .error .emptyTitle ↔ trim task.title = "" := by
  rw [prepare_eq_iff]
  constructor
  · intro h
    cases h with
    | emptyTitle htitle => exact htitle
  · exact .emptyTitle

theorem prepare_eq_badDate_iff :
    task.prepare today = .error .badDate ↔
      trim task.title ≠ "" ∧ ∀ x : Date, ¬ x.IsSpelledBy (task.givenDate today).toList := by
  rw [prepare_eq_iff]
  constructor
  · intro h
    cases h with
    | badDate htitle hdate => exact ⟨htitle, hdate⟩
  · rintro ⟨htitle, hdate⟩
    exact .badDate htitle hdate

theorem prepare_eq_repeatRule_iff :
    task.prepare today = .error (.repeatRule e) ↔
      trim task.title ≠ "" ∧ (∃ x : Date, x.IsSpelledBy (task.givenDate today).toList) ∧
        trim task.repeatRule ≠ "" ∧
        nextDate today (task.givenDate today) (trim task.repeatRule) = .error e := by
  rw [prepare_eq_iff]
  constructor
  · intro h
    cases h with
    | repeatRule htitle hday hrule he => exact ⟨htitle, ⟨_, hday⟩, hrule, he⟩
  · rintro ⟨htitle, ⟨x, hx⟩, hrule, he⟩
    obtain ⟨day, rfl⟩ := hx.exists_date_eq
    exact .repeatRule htitle hx hrule he

theorem exists_prepare_iff :
    (∃ kept, task.prepare today = .ok kept) ↔
      trim task.title ≠ "" ∧ (∃ x : Date, x.IsSpelledBy (task.givenDate today).toList) ∧
        (trim task.repeatRule = "" ∨
          ∃ next, nextDate today (task.givenDate today) (trim task.repeatRule) = .ok next) := by
  constructor
  · rintro ⟨kept, h⟩
    cases prepare_eq_iff.mp h with
    | once htitle hday hrule => exact ⟨htitle, ⟨_, hday⟩, .inl hrule⟩
    | repeating htitle hday hrule ho =>
      exact ⟨htitle, ⟨_, hday⟩, .inr ⟨_, nextDate_givenDate hday hrule ho⟩⟩
  · rintro ⟨htitle, ⟨x, hx⟩, hrest⟩
    obtain ⟨day, rfl⟩ := hx.exists_date_eq
    rcases hrest with hrule | ⟨next, hnext⟩
    · exact ⟨_, (Verdict.once htitle hx hrule).prepare_eq⟩
    · obtain ⟨rule, o, hrule, ho⟩ := exists_occurrence_of_nextDate hx hnext
      exact ⟨_, (Verdict.repeating htitle hx hrule ho).prepare_eq⟩

/-- The day on which a task is kept that is handed in for a day: this day when it is not past, else
today, or the first occurrence of the rule after today, counted from the day. -/
inductive KeptDay (task : Task) (today day : Day) : Day → Prop
  | given (h : today ≤ day) : KeptDay task today day day
  | today (h : day < today) (hrule : trim task.repeatRule = "") : KeptDay task today day today
  | next {rule : Rule} {d : Day} (h : day < today) (hrule : Rule.parse task.repeatRule = .ok rule)
      (hnext : rule.IsNext today day d) : KeptDay task today day d

theorem KeptDay.le (h : task.KeptDay today day d) : today ≤ d := by
  cases h with
  | given h => exact h
  | today => exact Int.le_refl _
  | next _ _ hnext => exact Int.le_of_lt hnext.reference_lt

theorem KeptDay.day_le (h : task.KeptDay today day d) : day ≤ d := by
  cases h with
  | given => exact Int.le_refl _
  | today h => exact Int.le_of_lt h
  | next _ _ hnext => exact Int.le_of_lt hnext.occurs.anchor_lt

/-- The task is kept in this form. -/
structure Keeps (task : Task) (today : Day) (kept : Task) : Prop where
  id_eq : kept.id = task.id
  title_eq : kept.title = trim task.title
  title_ne_empty : kept.title ≠ ""
  comment_eq : kept.comment = task.comment
  repeatRule_eq : kept.repeatRule = trim task.repeatRule
  rule_read : kept.repeatRule = "" ∨ ∃ rule, Rule.parse kept.repeatRule = .ok rule
  date_written : ∃ d : Day, kept.date = d.text ∧ today ≤ d ∧ 0 ≤ d.year

theorem exists_keptDay_of_prepare (h : task.prepare today = .ok kept) :
    ∃ day d : Day, day.date.IsSpelledBy (task.givenDate today).toList ∧
      task.KeptDay today day d ∧ kept = task.keptOn d := by
  cases prepare_eq_iff.mp h with
  | @once day htitle hday hrule =>
    refine ⟨day, _, hday, ?_, rfl⟩
    split
    · exact .today ‹_› hrule
    · exact .given (Int.not_lt.mp ‹_›)
  | @repeating day rule o htitle hday hrule ho =>
    refine ⟨day, _, hday, ?_, rfl⟩
    split
    · exact .next ‹_› hrule (Rule.isNext_of_nextOccurrence ho)
    · exact .given (Int.not_lt.mp ‹_›)

theorem rule_read_of_prepare (h : task.prepare today = .ok kept) :
    trim task.repeatRule = "" ∨ ∃ rule, Rule.parse task.repeatRule = .ok rule := by
  cases prepare_eq_iff.mp h with
  | once _ _ hrule => exact .inl hrule
  | repeating _ _ hrule _ => exact .inr ⟨_, hrule⟩

theorem keeps_of_prepare (h : task.prepare today = .ok kept) : task.Keeps today kept := by
  have hrule := rule_read_of_prepare h
  obtain ⟨htitle, -⟩ := exists_prepare_iff.mp ⟨kept, h⟩
  obtain ⟨day, d, hday, hkept, rfl⟩ := exists_keptDay_of_prepare h
  refine ⟨rfl, rfl, htitle, rfl, rfl, ?_, d, rfl, hkept.le, ?_⟩
  · rwa [keptOn, Rule.parse_trim]
  · exact hday.year_range.1.trans (Day.year_le_of_le hkept.day_le)

theorem exists_day_of_prepare (h : task.prepare today = .ok kept) :
    (∃ d : Day, kept.date = d.text ∧ today ≤ d) ∧
      (kept.repeatRule = "" ∨ ∃ rule, Rule.parse kept.repeatRule = .ok rule) := by
  have hkeeps := keeps_of_prepare h
  obtain ⟨d, hdate, hle, -⟩ := hkeeps.date_written
  exact ⟨⟨d, hdate, hle⟩, hkeeps.rule_read⟩

theorem keptOn_eq_of_prepare (hle : today ≤ d) (h : (task.keptOn d).prepare today = .ok kept) :
    kept = task.keptOn d := by
  obtain ⟨day, d', hday, hkept, rfl⟩ := exists_keptDay_of_prepare h
  have hgiven : (task.keptOn d).givenDate today = d.text := by
    rw [givenDate, keptOn, Day.trim_text, if_neg d.text_ne_empty]
  rw [hgiven] at hday
  obtain ⟨htext, hyear⟩ :=
    Day.ofText?_eq_some_iff.mp (Day.ofText?_eq_some_iff_isSpelledBy.mpr hday)
  obtain rfl := Day.eq_of_text_eq htext.symm hyear
  have hsame : d' = day := by
    cases hkept with
    | given => rfl
    | today hpast => exact absurd hle (Int.not_le.mpr hpast)
    | next hpast => exact absurd hle (Int.not_le.mpr hpast)
  rw [hsame]
  simp only [keptOn, trim_trim]

/-- A task is kept when it has a title, a day and a next date where it has a rule; the first of
these that it lacks is the error, and an error of the rule is about the rule or its search. What is
kept is the task with the same id and comment, trimmed, on its day, on today or on the next
occurrence after today, and so never on a past day. It would be kept in the same form again. -/
theorem prepare_first_error (task : Task) (today : Day) :
    ((∃ kept, task.prepare today = .ok kept) ↔
      trim task.title ≠ "" ∧ (∃ x : Date, x.IsSpelledBy (task.givenDate today).toList) ∧
        (trim task.repeatRule = "" ∨
          ∃ next, nextDate today (task.givenDate today) (trim task.repeatRule) = .ok next)) ∧
    (task.prepare today = .error .emptyTitle ↔ trim task.title = "") ∧
    (task.prepare today = .error .badDate ↔
      trim task.title ≠ "" ∧ ∀ x : Date, ¬ x.IsSpelledBy (task.givenDate today).toList) ∧
    (∀ e, task.prepare today = .error (.repeatRule e) ↔
      trim task.title ≠ "" ∧ (∃ x : Date, x.IsSpelledBy (task.givenDate today).toList) ∧
        trim task.repeatRule ≠ "" ∧
        nextDate today (task.givenDate today) (trim task.repeatRule) = .error e) ∧
    (∀ e, task.prepare today = .error (.repeatRule e) →
      e ≠ .emptyRule ∧ ∀ raw, e ≠ .malformedAnchor raw) ∧
    ∀ kept, task.prepare today = .ok kept →
      kept.id = task.id ∧ kept.comment = task.comment ∧ kept.title = trim task.title ∧
        kept.repeatRule = trim task.repeatRule ∧
        (∃ day d : Day, day.date.IsSpelledBy (task.givenDate today).toList ∧
          task.KeptDay today day d ∧ kept.date = d.text ∧ today ≤ d) ∧
        ∀ again, kept.prepare today = .ok again → again = kept := by
  refine ⟨exists_prepare_iff, prepare_eq_emptyTitle_iff, prepare_eq_badDate_iff,
    fun _ => prepare_eq_repeatRule_iff, fun e he => ?cause, fun kept h => ?kept⟩
  case cause =>
    obtain ⟨-, ⟨x, hx⟩, hrule, he⟩ := prepare_eq_repeatRule_iff.mp he
    exact NextDate.ne_of_nextDate_eq_error (NextDate.isSpelledBy_trim hx) hrule he
  case kept =>
    obtain ⟨day, d, hday, hkept, rfl⟩ := exists_keptDay_of_prepare h
    exact ⟨rfl, rfl, rfl, rfl, ⟨day, d, hday, hkept, rfl, hkept.le⟩,
      fun again hagain => keptOn_eq_of_prepare hkept.le hagain⟩

/-- A past task moves to the first multiple of ten days after today, and stays there. A task with an
unknown rule is refused for its rule. -/
theorem prepare_first_error_rent : ∃ (today : Day) (rent kept walk : Task) (e : NextDateError),
    Day.ofDate? ⟨2024, 1, 26⟩ = some today ∧ rent = ⟨"7", " 20240101", " rent ", "", "d 10 "⟩ ∧
    kept = ⟨"7", "20240131", "rent", "", "d 10"⟩ ∧ rent.prepare today = .ok kept ∧
    (∃ day d : Day, day.date.IsSpelledBy (rent.givenDate today).toList ∧
      rent.KeptDay today day d ∧ kept.date = d.text ∧ today ≤ d) ∧
    kept.prepare today = .ok kept ∧ walk.repeatRule = "k 1" ∧
    walk.prepare today = .error (.repeatRule e) ∧ ∀ raw, e ≠ .malformedAnchor raw := by
  let today : Day := ⟨738911, by decide, by decide⟩
  let rent : Task := ⟨"7", " 20240101", " rent ", "", "d 10 "⟩
  let kept : Task := ⟨"7", "20240131", "rent", "", "d 10"⟩
  let walk : Task := ⟨"", "", "walk", "", "k 1"⟩
  have hkept : rent.prepare today = .ok kept := by decide +kernel
  have hwalk : walk.prepare today =
      .error (.repeatRule (.rule (.unknownLetter "k"))) := by decide +kernel
  obtain ⟨-, -, -, -, hday, hagain⟩ := (prepare_first_error rent today).2.2.2.2.2 kept hkept
  obtain ⟨-, hcause⟩ := (prepare_first_error walk today).2.2.2.2.1 _ hwalk
  have hsucceeds : ∃ again, kept.prepare today = .ok again := ⟨kept, by decide +kernel⟩
  obtain ⟨again, hprepared⟩ := hsucceeds
  rw [hagain again hprepared] at hprepared
  exact ⟨today, rent, kept, walk, _, by decide, rfl, rfl, hkept, hday, hprepared, rfl, hwalk,
    hcause⟩

end Task

end Agenda
