import Agenda.Proofs.Rule.Moving
import Agenda.Proofs.Store.Effect
import Agenda.Proofs.Task.Prepare

/-!
# Rows as the service keeps them

A row that is kept has a title, its texts are trimmed, its rule is read or empty, and its date is
the written form of a day from year 0 on. What becomes of such a row when its task is done depends
on the row alone: it is removed, it moves to the next occurrence after its day, or it cannot be done
and stays in every store.
-/

namespace Agenda

open Text

namespace Row

/-- The row is in the form that the service gives to all rows. -/
structure WellKept (row : Row) : Prop where
  title_ne_empty : row.title ≠ ""
  title_trimmed : IsTrimmed row.title.toList
  rule_trimmed : IsTrimmed row.repeatRule.toList
  rule_read : row.repeatRule = "" ∨ ∃ rule, Rule.parse row.repeatRule = .ok rule
  date_written : ∃ d : Day, row.date = d.text ∧ 0 ≤ d.year

/-- What becomes of a row whose task is done: it is removed when it has no rule, and otherwise its
date moves to the first occurrence of the rule after it, counted from it. -/
inductive Becomes (row : Row) : Option Row → Prop
  | removed (h : row.repeatRule = "") : Becomes row none
  | moved {rule : Rule} {d next : Day} (hrule : Rule.parse row.repeatRule = .ok rule)
    (hdate : row.date = d.text) (hyear : 0 ≤ d.year) (hmoves : rule.Moves d)
    (hnext : rule.IsNext d d next) : Becomes row (some { row with date := next.text })

variable {row : Row} {result : Option Row}

theorem wellKept_ofTask {task kept : Task} {today : Day} {id : Nat} (h : task.Keeps today kept) :
    (Row.ofTask id kept).WellKept where
  title_ne_empty := h.title_ne_empty
  title_trimmed := by
    rw [Row.ofTask, h.title_eq, toList_trim]
    exact isTrimmed_trimmed _
  rule_trimmed := by
    rw [Row.ofTask, h.repeatRule_eq, toList_trim]
    exact isTrimmed_trimmed _
  rule_read := h.rule_read
  date_written := by
    obtain ⟨d, hdate, -, hyear⟩ := h.date_written
    exact ⟨d, hdate, hyear⟩

theorem Becomes.id_eq (h : row.Becomes result) : ∀ x ∈ result, x.id = row.id := by
  cases h with
  | removed => simp
  | moved => simp

theorem Becomes.repeatRule_eq (h : row.Becomes result) :
    ∀ x ∈ result, x.repeatRule = row.repeatRule := by
  cases h with
  | removed => simp
  | moved => simp

theorem Becomes.map_date (h : row.Becomes result) :
    (result.map fun moved => { row with date := moved.date }) = result := by
  cases h with
  | removed => rfl
  | moved => rfl

theorem Becomes.wellKept (hrow : row.WellKept) (h : row.Becomes result) :
    ∀ x ∈ result, x.WellKept := by
  cases h with
  | removed => simp
  | moved hrule hdate hyear hmoves hnext =>
    rintro x ⟨⟩
    exact ⟨hrow.title_ne_empty, hrow.title_trimmed, hrow.rule_trimmed, hrow.rule_read, _, rfl,
      hyear.trans (Day.year_le_of_le (Int.le_of_lt hnext.reference_lt))⟩

theorem becomes_iff {rule : Rule} {d : Day} (hrule : Rule.parse row.repeatRule = .ok rule)
    (hdate : row.date = d.text) (hyear : 0 ≤ d.year) :
    row.Becomes result ↔ rule.Moves d ∧
      ∃ next, rule.IsNext d d next ∧ result = some { row with date := next.text } := by
  constructor
  · intro h
    cases h with
    | removed hempty =>
      rw [hempty] at hrule
      cases hrule
    | moved hrule' hdate' hyear' hmoves hnext =>
      obtain rfl := Except.ok.inj (hrule'.symm.trans hrule)
      obtain rfl := Day.eq_of_text_eq (hdate'.symm.trans hdate) ⟨hyear', hmoves.1⟩
      exact ⟨hmoves, _, hnext, rfl⟩
  · rintro ⟨hmoves, next, hnext, rfl⟩
    exact .moved hrule hdate hyear hmoves hnext

theorem Becomes.unique {result' : Option Row} (h : row.Becomes result)
    (h' : row.Becomes result') : result = result' := by
  cases h with
  | removed hempty =>
    cases h' with
    | removed => rfl
    | moved hrule =>
      rw [hempty] at hrule
      cases hrule
  | moved hrule hdate hyear hmoves hnext =>
    obtain ⟨-, next', hnext', rfl⟩ := (becomes_iff hrule hdate hyear).mp h'
    rw [hnext.unique hnext']

/-- How the completion of the row turns out. The last two are refused, whatever else the store
holds: the date that is too far away is no date for the store. -/
inductive TurnsOut (row : Row) : Except TaskError Completion → Prop
  | removed (h : row.Becomes none) : TurnsOut row (.ok .delete)
  | moved {next : Day} (h : row.Becomes (some { row with date := next.text }))
    (hyear : 0 ≤ next.year ∧ next.year ≤ 9999) : TurnsOut row (.ok (.reschedule next.text))
  | failed {e : TaskError} (h : ∀ result, ¬ row.Becomes result) : TurnsOut row (.error e)
  | tooFar {next : Day} (h : ∀ result, ¬ row.Becomes result)
    (hyear : ¬ (0 ≤ next.year ∧ next.year ≤ 9999)) : TurnsOut row (.ok (.reschedule next.text))

theorem turnsOut {d : Day}
    (hread : row.repeatRule = "" ∨ ∃ rule, Rule.parse row.repeatRule = .ok rule)
    (hdate : row.date = d.text) (hyear : 0 ≤ d.year) : row.TurnsOut row.toTask.completion := by
  rcases hread with hempty | ⟨rule, hrule⟩
  · have hcompletion : row.toTask.completion = .ok .delete := Task.completion_eq_delete hempty
    rw [hcompletion]
    exact .removed (.removed hempty)
  · have hmoves : ∀ result, row.Becomes result → rule.Moves d :=
      fun result hresult => ((becomes_iff hrule hdate hyear).mp hresult).1
    by_cases hd : d.year ≤ 9999
    · have hcompletion : row.toTask.completion = _ := Task.completion_eq hrule hdate ⟨hyear, hd⟩
      rw [hcompletion]
      cases ho : rule.nextOccurrence d d with
      | error e =>
        refine .failed fun result hresult => ?_
        obtain ⟨-, o, ho', -⟩ := Rule.moves_iff.mp (hmoves result hresult)
        rw [ho] at ho'
        cases ho'
      | ok o =>
        have hnext := Rule.isNext_of_nextOccurrence ho
        have hlater : 0 ≤ o.day.year :=
          hyear.trans (Day.year_le_of_le (Int.le_of_lt hnext.reference_lt))
        by_cases hfar : o.day.year ≤ 9999
        · refine .moved ?_ ⟨hlater, hfar⟩
          rw [becomes_iff hrule hdate hyear]
          exact ⟨Rule.moves_iff.mpr ⟨hd, o, ho, hfar⟩, o.day, hnext, rfl⟩
        · refine .tooFar (fun result hresult => ?_) fun h => hfar h.2
          obtain ⟨-, o', ho', hle⟩ := Rule.moves_iff.mp (hmoves result hresult)
          obtain rfl := Except.ok.inj (ho.symm.trans ho')
          exact hfar hle
    · have hcompletion : row.toTask.completion = .error .badDate :=
        Task.completion_eq_badDate hrule hdate fun h => hd h.2
      rw [hcompletion]
      exact .failed fun result hresult => hd (hmoves result hresult).1

theorem WellKept.turnsOut (h : row.WellKept) : row.TurnsOut row.toTask.completion := by
  obtain ⟨d, hdate, hyear⟩ := h.date_written
  exact Row.turnsOut h.rule_read hdate hyear

theorem WellKept.completion_of_becomes (h : row.WellKept) (hbecomes : row.Becomes result) :
    (result = none ∧ row.toTask.completion = .ok .delete) ∨
      ∃ next : Day, result = some { row with date := next.text } ∧
        row.toTask.completion = .ok (.reschedule next.text) ∧
        0 ≤ next.year ∧ next.year ≤ 9999 := by
  have hturns := h.turnsOut
  revert hturns
  generalize row.toTask.completion = completion
  intro hturns
  cases hturns with
  | removed hremoved => exact .inl ⟨hbecomes.unique hremoved, rfl⟩
  | moved hmoved hyear => exact .inr ⟨_, hbecomes.unique hmoved, rfl, hyear⟩
  | failed hnone => exact absurd hbecomes (hnone result)
  | tooFar hnone => exact absurd hbecomes (hnone result)

end Row

namespace Store

/-- All rows are well kept, under ascending ids. -/
structure WellKept (s : Store) : Prop where
  keyed : s.Keyed
  rows : ∀ row ∈ s.rows, row.WellKept

variable {s : Store} {id : String}

theorem wellKept_empty : empty.WellKept := ⟨keyed_empty, by simp [empty]⟩

theorem WellKept.add {task kept : Task} {today : Day} (h : s.WellKept)
    (hkeeps : task.Keeps today kept) : (s.add kept).1.WellKept where
  keyed := h.keyed.add kept
  rows := by
    intro row hrow
    rcases List.mem_append.mp hrow with hrow | hrow
    · exact h.rows row hrow
    · rw [List.mem_singleton.mp hrow]
      exact Row.wellKept_ofTask hkeeps

theorem WellKept.settle {f : Row → Option Row} {change : Except StoreError Store}
    (h : s.WellKept) (hchanges : s.Changes id f change)
    (hf : ∀ row : Row, row.WellKept → ∀ x ∈ f row, x.WellKept)
    (hkeyed : (s.settle change).1.Keyed) : (s.settle change).1.WellKept where
  keyed := hkeyed
  rows := by
    cases hchanges with
    | badId => exact h.rows
    | notFound => exact h.rows
    | replaces hid hrow hreplaces =>
      intro x hx
      rcases hreplaces.mem_or_mem hx with hx | hx
      · exact h.rows x hx
      · exact hf _ (h.rows _ hreplaces.mem) x hx

theorem WellKept.update {task kept : Task} {today : Day} (h : s.WellKept)
    (hkeeps : task.Keeps today kept) : (s.perform (.update kept)).1.WellKept := by
  refine h.settle (h.keyed.changes_update kept) ?_ (h.keyed.perform (.update kept))
  rintro row - x ⟨⟩
  exact Row.wellKept_ofTask hkeeps

theorem WellKept.delete (h : s.WellKept) : (s.perform (.delete id)).1.WellKept :=
  h.settle h.keyed.changes_delete (by simp) (h.keyed.perform (.delete id))

theorem WellKept.setDate {date : String} (h : s.WellKept)
    (hdate : (trim date).utf8ByteSize = 8 → ∃ d : Day, trim date = d.text ∧ 0 ≤ d.year) :
    (s.perform (.setDate id date)).1.WellKept := by
  by_cases hsize : (trim date).utf8ByteSize = 8
  · refine h.settle (h.keyed.changes_setDate hsize) ?_ (h.keyed.perform (.setDate id date))
    rintro row hrow x ⟨⟩
    exact { hrow with date_written := hdate hsize }
  · simp only [perform, setDate_eq_badDate hsize]
    exact h

theorem WellKept.setDate_text (h : s.WellKept) (d : Day) :
    (s.perform (.setDate id d.text)).1.WellKept := by
  refine h.setDate fun hsize => ?_
  rw [Day.trim_text] at hsize ⊢
  exact ⟨d, rfl, (Day.utf8ByteSize_text_eq_iff.mp hsize).1⟩

end Store
end Agenda
