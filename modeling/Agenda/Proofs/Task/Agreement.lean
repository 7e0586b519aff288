import Agenda.Proofs.Rule.ClosedForm
import Agenda.Proofs.Task.Prepare

/-!
# A task that is kept can be done

A task with a rule is kept only if the rule has a next date after today, and a task that is done
moves to the next date after its own day. The two searches start from different references, but on
a day that is not past both references lie before the first candidate: the searches are one, and so
a task that is kept on its day can be done, and one that is refused for its rule could not.
-/

namespace Agenda

open Text

variable {reference reference' today day : Day} {anchor anchor' : String}

theorem NextDate.nextDate_congr (expr : String)
    (hday : day.date.IsSpelledBy (trim anchor).toList)
    (hday' : day.date.IsSpelledBy (trim anchor').toList) (hle : reference ≤ day)
    (hle' : reference' ≤ day) :
    nextDate reference anchor expr = nextDate reference' anchor' expr := by
  by_cases hblank : AllBlank expr.toList
  · rw [nextDate, nextDate, (Verdict.emptyRule hblank).evaluate_eq,
      (Verdict.emptyRule hblank).evaluate_eq]
  cases hrule : Rule.parse expr with
  | error e =>
    rw [nextDate, nextDate, (Verdict.rule hblank hday hrule).evaluate_eq,
      (Verdict.rule hblank hday' hrule).evaluate_eq]
  | ok parsed =>
    rw [nextDate_of_isSpelledBy hday hrule, nextDate_of_isSpelledBy hday' hrule,
      parsed.nextOccurrence_eq_of_le hle, parsed.nextOccurrence_eq_of_le hle']

namespace Task

variable {task : Task}

theorem trim_date_eq (hday : day.date.IsSpelledBy (trim task.date).toList) :
    trim task.date = day.text :=
  (Day.ofText?_eq_some_iff.mp (Day.ofText?_eq_some_iff_isSpelledBy.mpr hday)).1

theorem givenDate_eq (hday : day.date.IsSpelledBy (trim task.date).toList) (today : Day) :
    task.givenDate today = trim task.date := by
  refine if_neg ?_
  rw [trim_date_eq hday]
  exact day.text_ne_empty

theorem prepare_eq_nextDate (htitle : trim task.title ≠ "") (hrule : trim task.repeatRule ≠ "")
    (hday : day.date.IsSpelledBy (trim task.date).toList) (hle : today ≤ day) :
    task.prepare today =
      match nextDate day task.date (trim task.repeatRule) with
      | .error e => .error (.repeatRule e)
      | .ok _ => .ok (task.keptOn day) := by
  have hgiven := givenDate_eq hday today
  have hread : Day.ofText? (task.givenDate today) = some day := by
    rw [hgiven]
    exact Day.ofText?_eq_some_iff_isSpelledBy.mpr hday
  have hself : day ≤ day := Int.le_refl _
  have hpast : ¬ day < today := Int.not_lt.mpr hle
  simp only [prepare_eq_of_day htitle hread, nextDate?, if_neg hrule, hgiven, if_neg hpast,
    NextDate.nextDate_congr _ (NextDate.isSpelledBy_trim hday) hday hle hself]
  cases nextDate day task.date (trim task.repeatRule) <;> rfl

theorem completion_eq_nextDate (hrule : trim task.repeatRule ≠ "")
    (hday : day.date.IsSpelledBy (trim task.date).toList) :
    task.completion =
      match nextDate day task.date (trim task.repeatRule) with
      | .error e => .error (.repeatRule e)
      | .ok next => .ok (.reschedule next) := by
  have hread := Day.ofText?_eq_some_iff_isSpelledBy.mpr hday
  cases hnext : nextDate day task.date (trim task.repeatRule) <;>
    simp only [completion, if_neg hrule, hread, hnext]

/-- On a day that is not past, a task with a rule is kept just when it can be done. It is kept on
its day, and when it is done it moves to the next date that was found when it was kept, whatever day
it was kept on. The two are refused with the same error of the rule. -/
theorem prepare_agrees_completion (task : Task) (day : Day) (htitle : trim task.title ≠ "")
    (hrule : trim task.repeatRule ≠ "")
    (hday : day.date.IsSpelledBy (trim task.date).toList) :
    (∀ today, today ≤ day →
      ((∃ kept, task.prepare today = .ok kept) ↔ ∃ c, task.completion = .ok c)) ∧
    (∀ today kept, today ≤ day → task.prepare today = .ok kept → kept.date = trim task.date) ∧
    (∀ c, task.completion = .ok c → ∃ next, c = .reschedule next ∧ ∀ today, today ≤ day →
      nextDate today (trim task.date) (trim task.repeatRule) = .ok next) ∧
    ∀ e, task.completion = .error e → ∃ cause, e = .repeatRule cause ∧ ∀ today, today ≤ day →
      task.prepare today = .error e := by
  have hprepare := fun today (hle : today ≤ day) => prepare_eq_nextDate htitle hrule hday hle
  have hcompletion := completion_eq_nextDate hrule hday
  have hsearch := fun today (hle : today ≤ day) =>
    NextDate.nextDate_congr (trim task.repeatRule) (NextDate.isSpelledBy_trim hday) hday hle
      (Int.le_refl day.number)
  cases hnext : nextDate day task.date (trim task.repeatRule) with
  | error cause =>
    simp only [hnext] at hprepare hcompletion
    refine ⟨?_, ?_, ?_, ?_⟩
    · intro today hle
      simp [hprepare today hle, hcompletion]
    · intro today kept hle hkept
      rw [hprepare today hle] at hkept
      cases hkept
    · intro c hc
      rw [hcompletion] at hc
      cases hc
    · intro e he
      rw [hcompletion] at he
      cases he
      exact ⟨cause, rfl, hprepare⟩
  | ok next =>
    simp only [hnext] at hprepare hcompletion hsearch
    refine ⟨?_, ?_, ?_, ?_⟩
    · intro today hle
      simp [hprepare today hle, hcompletion]
    · intro today kept hle hkept
      rw [hprepare today hle] at hkept
      cases hkept
      exact (trim_date_eq hday).symm
    · intro c hc
      rw [hcompletion] at hc
      cases hc
      exact ⟨next, rfl, hsearch⟩
    · intro e he
      rw [hcompletion] at he
      cases he

/-- A task on the last day of January moves to the last day of March, which was found when it was
kept in the year before. A task with an unknown rule can be done no more than it can be kept. -/
theorem prepare_agrees_completion_monthEnd :
    ∃ (today day : Day) (rent walk : Task) (e : TaskError), today.date = ⟨2023, 5, 1⟩ ∧
      day.date.IsSpelledBy (trim rent.date).toList ∧
      rent = ⟨"7", "20240131 ", "rent", "", "m 31"⟩ ∧ (∃ kept, rent.prepare today = .ok kept) ∧
      nextDate today (trim rent.date) (trim rent.repeatRule) = .ok "20240331" ∧
      rent.completion = .ok (.reschedule "20240331") ∧
      walk = ⟨"8", "20240131", "walk", "", "k 1"⟩ ∧ walk.prepare today = .error e ∧
      walk.completion = .error e := by
  let today : Day := ⟨738641, by decide, by decide⟩
  let day : Day := ⟨738916, by decide, by decide⟩
  let rent : Task := ⟨"7", "20240131 ", "rent", "", "m 31"⟩
  let walk : Task := ⟨"8", "20240131", "walk", "", "k 1"⟩
  have hday : day.date.IsSpelledBy (trim rent.date).toList :=
    ⟨by decide, by decide, by decide +kernel⟩
  have hwalkday : day.date.IsSpelledBy (trim walk.date).toList :=
    ⟨by decide, by decide, by decide +kernel⟩
  have hle : today ≤ day := by decide
  have hrent : rent.completion = .ok (.reschedule "20240331") := by decide +kernel
  have hwalk : walk.completion = .error (.repeatRule (.rule (.unknownLetter "k"))) := by
    decide +kernel
  obtain ⟨hkept, -, hnext, -⟩ :=
    prepare_agrees_completion rent day (by decide +kernel) (by decide +kernel) hday
  obtain ⟨-, -, -, herror⟩ :=
    prepare_agrees_completion walk day (by decide +kernel) (by decide +kernel) hwalkday
  obtain ⟨_, hreschedule, hsearch⟩ := hnext _ hrent
  cases hreschedule
  obtain ⟨_, -, hprepare⟩ := herror _ hwalk
  exact ⟨today, day, rent, walk, _, by decide, hday, rfl, (hkept today hle).mpr ⟨_, hrent⟩,
    hsearch today hle, hrent, rfl, hprepare today hle, hwalk⟩

end Task

end Agenda
