import Agenda.Store.Script

/-!
# Interleaved scripts

Two scripts run at once: their calls take turns in any way. When each makes one call at most, or
reads in one call and then makes another, all of this comes down to four orders. One script comes
before the other, or all of it stands between the two calls of the other.
-/

namespace Agenda

namespace Call

/-- The call changes no store. -/
def Reads (c : Call) : Prop := ∀ s : Store, (s.perform c).1 = s

/-- Whatever the call answers, the script is done. -/
def Ends {α : Type} (c : Call) (next : c.Answer → Script α) : Prop :=
  ∀ answer, ∃ result, next answer = .done result

end Call

namespace Script

variable {α β : Type}

/-- Both scripts perform all of their calls, in any order between the two. -/
inductive Interleaves : Script α → Script β → Store → Store → α → β → Prop
  | done {s : Store} {a : α} {b : β} : Interleaves (done a) (done b) s s a b
  | left {c : Call} {next : c.Answer → Script α} {q : Script β} {s s' : Store} {a : α} {b : β}
    (h : Interleaves (next (s.perform c).2) q (s.perform c).1 s' a b) :
    Interleaves (call c next) q s s' a b
  | right {c : Call} {next : c.Answer → Script β} {p : Script α} {s s' : Store} {a : α} {b : β}
    (h : Interleaves p (next (s.perform c).2) (s.perform c).1 s' a b) :
    Interleaves p (call c next) s s' a b

/-- The scripts run one after the other. -/
def InOrder (p : Script α) (q : Script β) (s s' : Store) (a : α) (b : β) : Prop :=
  ∃ between, p.run s = (between, a) ∧ q.run between = (s', b)

/-- All of the second script runs after the first call of the first one, which then goes on. -/
def Encloses (p : Script α) (q : Script β) (s s' : Store) (a : α) (b : β) : Prop :=
  ∃ (c : Call) (next : c.Answer → Script α) (between : Store), p = call c next ∧
    q.run (s.perform c).1 = (between, b) ∧ (next (s.perform c).2).run between = (s', a)

/-- The script makes one call at most. -/
inductive IsSingle : Script α → Prop
  | done (result : α) : IsSingle (done result)
  | call {c : Call} {next : c.Answer → Script α} (hends : c.Ends next) : IsSingle (call c next)

/-- The script makes one call at most, or one that reads and then another at most. -/
inductive IsShort : Script α → Prop
  | single {p : Script α} (h : p.IsSingle) : IsShort p
  | reads {c : Call} {next : c.Answer → Script α} (hreads : c.Reads)
    (h : ∀ answer, (next answer).IsSingle) : IsShort (call c next)

variable {p : Script α} {q : Script β} {s s' : Store} {a a' : α} {b b' : β}

theorem Encloses.inOrder (hp : p.IsSingle) (h : Encloses p q s s' a b) :
    InOrder p q s s' a b := by
  obtain ⟨c, next, between, rfl, hq, hrest⟩ := h
  cases hp with
  | call hends =>
    obtain ⟨a', ha'⟩ := hends (s.perform c).2
    rw [ha'] at hrest
    cases hrest
    exact ⟨(s.perform c).1, by rw [run, ha', run], hq⟩

namespace Interleaves

theorem symm (h : Interleaves p q s s' a b) : Interleaves q p s s' b a := by
  induction h with
  | done => exact .done
  | left _ ih => exact .right ih
  | right _ ih => exact .left ih

theorem of_run (h : q.run s = (s', b)) : Interleaves (.done a) q s s' a b := by
  induction q generalizing s with
  | done b' =>
    cases h
    exact .done
  | call c next ih => exact .right (ih _ h)

theorem of_inOrder (h : InOrder p q s s' a b) : Interleaves p q s s' a b := by
  obtain ⟨between, hp, hq⟩ := h
  induction p generalizing s with
  | done a' =>
    cases hp
    exact of_run hq
  | call c next ih => exact .left (ih _ hp)

theorem of_encloses (h : Encloses p q s s' a b) : Interleaves p q s s' a b := by
  obtain ⟨c, next, between, rfl, hq, hnext⟩ := h
  exact .left (symm (of_inOrder ⟨between, hq, hnext⟩))

theorem run_eq (h : Interleaves (.done a') q s s' a b) : a' = a ∧ q.run s = (s', b) := by
  induction q generalizing s with
  | done b' =>
    cases h
    exact ⟨rfl, rfl⟩
  | call c next ih =>
    cases h with
    | right h => exact ih _ h

theorem inOrder_of_done (h : Interleaves (.done a') q s s' a b) :
    InOrder (.done a') q s s' a b := by
  obtain ⟨rfl, hq⟩ := h.run_eq
  exact ⟨s, rfl, hq⟩

theorem inOrder_of_done_right (h : Interleaves p (.done b') s s' a b) :
    InOrder p (.done b') s s' a b := by
  obtain ⟨rfl, hp⟩ := h.symm.run_eq
  exact ⟨s', hp, rfl⟩

theorem inOrder_of_left {c : Call} {next : c.Answer → Script α} (hends : c.Ends next)
    (h : Interleaves (next (s.perform c).2) q (s.perform c).1 s' a b) :
    InOrder (.call c next) q s s' a b := by
  obtain ⟨a', ha'⟩ := hends (s.perform c).2
  rw [ha'] at h
  obtain ⟨rfl, hq⟩ := h.run_eq
  exact ⟨(s.perform c).1, by rw [run, ha', run], hq⟩

theorem of_single (hp : p.IsSingle) (hq : q.IsSingle) (h : Interleaves p q s s' a b) :
    InOrder p q s s' a b ∨ InOrder q p s s' b a := by
  cases hp with
  | done => exact .inl h.inOrder_of_done
  | call hpEnds =>
    cases hq with
    | done => exact .inl h.inOrder_of_done_right
    | call hqEnds =>
      cases h with
      | left h => exact .inl (inOrder_of_left hpEnds h)
      | right h => exact .inr (inOrder_of_left hqEnds h.symm)

theorem of_single_left {c : Call} {next : c.Answer → Script β} (hp : p.IsSingle)
    (hq : ∀ answer, (next answer).IsSingle) (h : Interleaves p (.call c next) s s' a b) :
    InOrder p (.call c next) s s' a b ∨ InOrder (.call c next) p s s' b a ∨
      Encloses (.call c next) p s s' b a := by
  cases h with
  | left h =>
    cases hp with
    | call hends => exact .inl (inOrder_of_left hends h)
  | right h =>
    rcases of_single hp (hq _) h with ⟨between, hrun, hrest⟩ | ⟨between, hrun, hrest⟩
    · exact .inr (.inr ⟨c, next, between, rfl, hrun, hrest⟩)
    · exact .inr (.inl ⟨between, hrun, hrest⟩)

theorem of_reads_left {c d : Call} {next : c.Answer → Script α} {next' : d.Answer → Script β}
    (hc : c.Reads) (hd : d.Reads) (hp : ∀ answer, (next answer).IsSingle)
    (hq : ∀ answer, (next' answer).IsSingle)
    (h : Interleaves (next (s.perform c).2) (.call d next') (s.perform c).1 s' a b) :
    InOrder (.call c next) (.call d next') s s' a b ∨
      Encloses (.call c next) (.call d next') s s' a b ∨
      Encloses (.call d next') (.call c next) s s' b a := by
  rcases of_single_left (hp _) hq h with h | h | h
  · exact .inl h
  · obtain ⟨between, hrun, hrest⟩ := h
    exact .inr (.inl ⟨c, next, between, rfl, hrun, hrest⟩)
  · -- the first call of either script reads the same store
    obtain ⟨d', rest, between, heq, hrun, hrest⟩ := h
    cases heq
    rw [hc, hd] at hrun
    rw [hc] at hrest
    refine .inr (.inr ⟨d, next', between, rfl, ?_, hrest⟩)
    rw [hd, run, hc]
    exact hrun

theorem of_isShort (hp : p.IsShort) (hq : q.IsShort) (h : Interleaves p q s s' a b) :
    InOrder p q s s' a b ∨ InOrder q p s s' b a ∨
      Encloses p q s s' a b ∨ Encloses q p s s' b a := by
  cases hp with
  | single hp =>
    cases hq with
    | single hq => exact (of_single hp hq h).imp_right .inl
    | reads _ hq => exact (of_single_left hp hq h).imp_right (.imp_right .inr)
  | reads hc hp =>
    cases hq with
    | single hq =>
      rcases of_single_left hq hp h.symm with h | h | h
      · exact .inr (.inl h)
      · exact .inl h
      · exact .inr (.inr (.inl h))
    | reads hd hq =>
      cases h with
      | left h =>
        rcases of_reads_left hc hd hp hq h with h | h | h
        · exact .inl h
        · exact .inr (.inr (.inl h))
        · exact .inr (.inr (.inr h))
      | right h =>
        rcases of_reads_left hd hc hq hp h.symm with h | h | h
        · exact .inr (.inl h)
        · exact .inr (.inr (.inr h))
        · exact .inr (.inr (.inl h))

/-- Says all that two short scripts can come to when they run at once. -/
theorem iff_of_isShort (hp : p.IsShort) (hq : q.IsShort) :
    Interleaves p q s s' a b ↔ InOrder p q s s' a b ∨ InOrder q p s s' b a ∨
      Encloses p q s s' a b ∨ Encloses q p s s' b a := by
  refine ⟨of_isShort hp hq, ?_⟩
  rintro (h | h | h | h)
  · exact of_inOrder h
  · exact (of_inOrder h).symm
  · exact of_encloses h
  · exact (of_encloses h).symm

end Interleaves

end Script
end Agenda
