import Agenda.Proofs.Rule.Matching

/-!
# Weekly and monthly searches

Both searches test one day after the other, from the day after the later one of anchor and
reference on. They find the first day that the rule matches, unless the calendar ends before, or
the horizon does: after the last tested day there must still be a day.
-/

namespace Agenda

/-- No day from number `a` on and before number `b` has the property. -/
def NoneIn (p : Day → Prop) (a b : Int) : Prop :=
  ∀ d : Day, a ≤ d.number → d.number < b → ¬ p d

theorem NoneIn.cons {p : Day → Prop} {d : Day} {b : Int} (hd : ¬ p d)
    (h : NoneIn p (d.number + 1) b) : NoneIn p d.number b := by
  intro e hle hlt he
  by_cases heq : e.number = d.number
  · exact hd (Day.ext_number heq ▸ he)
  · exact h e (by omega) hlt he

namespace Search

variable {p : Day → Prop} {rule : Rule} {horizon : Nat} {reference anchor : Day}

/-- How a scan of `left` days from number `a` on ends. The number of the first candidate of the
whole search is `first`, and `steps` days have been tested when the one at `a` has. -/
inductive ScanEnd (p : Day → Prop) (rule : Rule) (horizon : Nat) (first a : Int)
    (steps left : Nat) : Except SearchError Occurrence → Prop
  | found (start d : Day) (i : Nat) (hstart : start.number = first) (hi : i < left)
      (hnumber : d.number = a + i) (hd : p d) (hnone : NoneIn p a d.number) :
      ScanEnd p rule horizon first a steps left (.ok ⟨d, start, steps + i, some horizon⟩)
  | overflow (hlast : Day.last.number < a + left) (hnone : NoneIn p a (Day.last.number + 1)) :
      ScanEnd p rule horizon first a steps left (.error (.calendarOverflow rule))
  | exhausted (hlast : a + left ≤ Day.last.number) (hnone : NoneIn p a (a + left)) :
      ScanEnd p rule horizon first a steps left (.error (.horizonExhausted rule horizon))

/-- The number of the day after the later one of anchor and reference. -/
def scanStart (reference anchor : Day) : Int := max anchor.number reference.number + 1

theorem lt_of_scanStart_le {d : Day} (h : scanStart reference anchor ≤ d.number) :
    anchor < d ∧ reference < d := by
  unfold scanStart at h
  simp only [Day.lt_def]
  omega

theorem scanStart_le {d : Day} (hanchor : anchor < d) (hreference : reference < d) :
    scanStart reference anchor ≤ d.number := by
  rw [Day.lt_def] at hanchor hreference
  unfold scanStart
  omega

theorem ScanEnd.isNext {steps left : Nat} {o : Occurrence}
    (hend : ScanEnd p rule horizon (scanStart reference anchor) (scanStart reference anchor)
      steps left (.ok o))
    (hoccurs : ∀ d, rule.Occurs anchor d ↔ anchor < d ∧ p d) :
    rule.IsNext reference anchor o.day := by
  cases hend with
  | found start d i hstart hi hnumber hd hnone =>
    have hlt : anchor < d ∧ reference < d := lt_of_scanStart_le (by omega)
    refine ⟨(hoccurs d).mpr ⟨hlt.1, hd⟩, hlt.2, ?_⟩
    intro e he hreference
    obtain ⟨hanchor, hpe⟩ := (hoccurs e).mp he
    by_contra hle
    exact hnone e (scanStart_le hanchor hreference) (Int.not_le.mp hle) hpe

/-- The two ways in which a scan fails exclude each other and the finding of a day. -/
theorem ScanEnd.eq_error_iff {first a : Int} {steps left : Nat}
    {answer : Except SearchError Occurrence} {e : SearchError}
    (hend : ScanEnd p rule horizon first a steps left answer) :
    answer = .error e ↔
      (e = .calendarOverflow rule ∧ Day.last.number < a + left ∧
        NoneIn p a (Day.last.number + 1)) ∨
      (e = .horizonExhausted rule horizon ∧ a + left ≤ Day.last.number ∧
        NoneIn p a (a + left)) := by
  cases hend with
  | found start d i hstart hi hnumber hd hnone =>
    have hlast := d.number_le_last
    simp only [reduceCtorEq, false_iff]
    rintro (⟨-, -, hnone⟩ | ⟨-, -, hnone⟩)
    · exact hnone d (by omega) (by omega) hd
    · exact hnone d (by omega) (by omega) hd
  | overflow hlast hnone =>
    rw [Except.error.injEq]
    constructor
    · rintro rfl
      exact .inl ⟨rfl, hlast, hnone⟩
    · rintro (⟨rfl, -⟩ | ⟨-, hle, -⟩)
      · rfl
      · omega
  | exhausted hlast hnone =>
    rw [Except.error.injEq]
    constructor
    · rintro rfl
      exact .inr ⟨rfl, hlast, hnone⟩
    · rintro (⟨-, hlt, -⟩ | ⟨rfl, -⟩)
      · omega
      · rfl

variable [DecidablePred p] {admits : Day → Except CalendarFault Bool}

theorem admittedFrom_scanEnd (hadmits : ∀ d, admits d = .ok (decide (p d))) (rule : Rule)
    (horizon : Nat) (start day : Day) (steps left : Nat) :
    ScanEnd p rule horizon start.number day.number steps left
      (admittedFrom rule horizon admits start day steps left) := by
  induction left generalizing day steps with
  | zero =>
    refine .exhausted (by have := day.number_le_last; omega) ?_
    intro d hle hlt
    omega
  | succ left ih =>
    rw [admittedFrom, hadmits]
    by_cases hday : p day
    · rw [decide_eq_true hday]
      refine .found start day 0 rfl (by omega) (by omega) hday ?_
      intro d hle hlt
      omega
    · rw [decide_eq_false hday]
      cases hnext : day.next? with
      | none =>
        rw [Day.next?_eq_none_iff] at hnext
        refine .overflow (by omega) (NoneIn.cons hday ?_)
        intro d hle hlt
        have := d.number_le_last
        omega
      | some next =>
        have hnumber := Day.next?_eq_some_iff.mp hnext
        have hend := ih next (steps + 1)
        rw [hnumber] at hend
        dsimp only
        generalize admittedFrom rule horizon admits start next (steps + 1) left = answer at hend
        cases hend with
        | found start d i hstart hi hd hp hnone =>
          rw [show steps + 1 + i = steps + (i + 1) by omega]
          exact .found start d (i + 1) hstart (by omega) (by omega) hp (hnone.cons hday)
        | overflow hlast hnone => exact .overflow (by omega) (hnone.cons hday)
        | exhausted hlast hnone =>
          refine .exhausted (by omega) ?_
          rw [show day.number + (left + 1 : Nat) = day.number + 1 + left by omega]
          exact hnone.cons hday

theorem firstAdmitted_scanEnd (hadmits : ∀ d, admits d = .ok (decide (p d))) (rule : Rule)
    (horizon : Nat) (reference anchor : Day) :
    ScanEnd p rule horizon (scanStart reference anchor) (scanStart reference anchor) 1 horizon
      (firstAdmitted rule horizon admits reference anchor) := by
  have hstart : (max anchor reference).number + 1 = scanStart reference anchor := by
    rw [Day.number_max, scanStart]
  unfold firstAdmitted
  cases hnext : (max anchor reference).next? with
  | none =>
    rw [Day.next?_eq_none_iff, hstart] at hnext
    refine .overflow (by omega) ?_
    intro d hle hlt
    omega
  | some start =>
    rw [Day.next?_eq_some_iff, hstart] at hnext
    have hend := admittedFrom_scanEnd hadmits rule horizon start start 1 horizon
    rwa [hnext] at hend

end Search

end Agenda
