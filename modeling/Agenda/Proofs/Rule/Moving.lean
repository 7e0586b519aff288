import Agenda.Proofs.Rule.Anchor
import Agenda.Proofs.Rule.MonthlyHorizon

/-!
# One step from a day

Counted from a day in the years of four digits, the search after this day answers the next
occurrence when there is one. The exception is the rule that matches leap days only, in the gap
around a century year without one.
-/

namespace Agenda
namespace Rule

variable {rule : Rule} {d : Day}

/-- The horizon ends before the next leap day, and the rule matches leap days only. -/
def MissesLeapDay (d : Day) : Rule → Prop
  | monthly days selected => MatchesLeapDaysOnly days selected ∧ InLeapGap d.number
  | _ => False

/-- The rule moves a task from the day to a later one, and both can be written with eight digits. -/
def Moves (d : Day) (rule : Rule) : Prop :=
  d.year ≤ 9999 ∧ ¬ rule.MissesLeapDay d ∧ ∃ next, rule.IsNext d d next ∧ next.year ≤ 9999

theorem MissesLeapDay.exhausts (h : rule.MissesLeapDay d) (hd : d.year ≤ 9999) :
    rule.Exhausts d d := by
  cases rule with
  | monthly days selected =>
    apply exhausts_of_inLeapGap h.1
    · rw [max_self]
      exact h.2
    · exact scanStart_add_le_last hd hd
  | _ => exact h.elim

theorem IsNext.exists_nextOccurrence {next : Day} (h : rule.IsNext d d next)
    (hd : d.year ≤ 9999) (hmiss : ¬ rule.MissesLeapDay d) :
    ∃ o, rule.nextOccurrence d d = .ok o ∧ o.day = next := by
  have hanswers : ∃ o, rule.nextOccurrence d d = .ok o := by
    rw [exists_nextOccurrence_iff]
    cases rule with
    | monthly days selected =>
      refine ⟨not_overflows_of_year_le hd hd, ?_⟩
      intro hexhausts
      obtain ⟨hleap, hgap⟩ := inLeapGap_of_exhausts hexhausts h.occurs.2
      rw [max_self] at hgap
      exact hmiss ⟨hleap, hgap⟩
    | _ => exact ⟨fun hover => hover next h.occurs h.reference_lt, id⟩
  obtain ⟨o, ho⟩ := hanswers
  exact ⟨o, ho, (isNext_of_nextOccurrence ho).unique h⟩

theorem moves_iff :
    rule.Moves d ↔
      d.year ≤ 9999 ∧ ∃ o, rule.nextOccurrence d d = .ok o ∧ o.day.year ≤ 9999 := by
  constructor
  · rintro ⟨hd, hmiss, next, hnext, hyear⟩
    obtain ⟨o, ho, rfl⟩ := hnext.exists_nextOccurrence hd hmiss
    exact ⟨hd, o, ho, hyear⟩
  · rintro ⟨hd, o, ho, hyear⟩
    refine ⟨hd, ?_, o.day, isNext_of_nextOccurrence ho, hyear⟩
    intro hmiss
    exact (exists_nextOccurrence_iff.mp ⟨o, ho⟩).2 (hmiss.exhausts hd)

end Rule
end Agenda
