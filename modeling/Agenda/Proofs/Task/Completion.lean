import Agenda.Proofs.NextDate
import Agenda.Task.Basic

/-!
# What becomes of a task that is done

A task with the written form of a day in the years 0 to 9999 and a rule that is read moves to the
next occurrence after its day, counted from this day, and one with a later day cannot be done.
-/

namespace Agenda

open Text

variable {d : Day} {rule : Rule}

namespace Task

variable {task : Task}

theorem completion_eq_delete (h : task.repeatRule = "") : task.completion = .ok .delete := by
  rw [completion, h]
  exact if_pos rfl

theorem completion_eq (hrule : Rule.parse task.repeatRule = .ok rule) (hdate : task.date = d.text)
    (hd : 0 ≤ d.year ∧ d.year ≤ 9999) :
    task.completion =
      match rule.nextOccurrence d d with
      | .error e => .error (.repeatRule (.search e))
      | .ok o => .ok (.reschedule o.day.text) := by
  have htrim : Rule.parse (trim task.repeatRule) = .ok rule := by rw [Rule.parse_trim, hrule]
  rw [completion, if_neg (Rule.trim_ne_empty_of_parse hrule), hdate, Day.trim_text,
    Day.ofText?_text hd]
  dsimp only
  rw [NextDate.nextDate_text htrim hd]
  cases rule.nextOccurrence d d <;> rfl

theorem completion_eq_badDate (hrule : Rule.parse task.repeatRule = .ok rule)
    (hdate : task.date = d.text) (hd : ¬ (0 ≤ d.year ∧ d.year ≤ 9999)) :
    task.completion = .error .badDate := by
  have hnone : Day.ofText? d.text = none := by
    cases hread : Day.ofText? d.text with
    | none => rfl
    | some e =>
      obtain ⟨htext, he⟩ := Day.ofText?_eq_some_iff.mp hread
      rw [← Day.utf8ByteSize_text_eq_iff, ← htext, Day.utf8ByteSize_text_eq_iff] at he
      exact absurd he hd
  rw [completion, if_neg (Rule.trim_ne_empty_of_parse hrule), hdate, Day.trim_text, hnone]

end Task

end Agenda
