import Agenda.Proofs.Text.Numeral
import Agenda.Store.Script

/-!
# Reachable stores

Every call keeps the rows of a store under ascending positive ids that do not exceed the highest id
handed out. So in a store that calls have led to, a new row is found under its new id.
-/

namespace Agenda

open Text

theorem readId_digits {n : Nat} (hpos : 0 < n) (hmax : n ≤ int64Max) :
    readId (String.ofList (digits n)) = .ok n := by
  have hint := isInteger_digits n
  have hread : readInt64 (digits n) = .value n := by
    rw [readInt64_eq_value_iff]
    refine ⟨hint, ?_, hmax⟩
    have hmin : int64Min = -9223372036854775808 := rfl
    omega
  rw [readId, String.toList_ofList, trimmed_eq_self hint.not_blank, hread]
  exact if_pos (Int.natCast_pos.mpr hpos)

namespace Store

/-- The rows have ascending ids between 1 and the highest id handed out. -/
structure Keyed (s : Store) : Prop where
  ascending : s.rows.Pairwise fun a b => a.id < b.id
  pos : ∀ row ∈ s.rows, 0 < row.id
  le_lastId : ∀ row ∈ s.rows, row.id ≤ s.lastId

/-- The store after some calls on the empty one. -/
inductive Reachable : Store → Prop
  | empty : Reachable empty
  | perform {s : Store} (c : Call) (h : Reachable s) : Reachable (s.perform c).1

variable {s s' : Store} {task : Task} {n : Nat} {f : Row → Row} {row : Row}

theorem keyed_empty : empty.Keyed := ⟨.nil, by simp [empty], by simp [empty]⟩

theorem Keyed.add (h : s.Keyed) (task : Task) : (s.add task).1.Keyed where
  ascending := by
    rw [Store.add, List.pairwise_append]
    refine ⟨h.ascending, List.pairwise_singleton _ _, ?_⟩
    intro a ha b hb
    rw [List.mem_singleton.mp hb]
    exact Nat.lt_succ_of_le (h.le_lastId a ha)
  pos := by
    intro row hrow
    rcases List.mem_append.mp hrow with hrow | hrow
    · exact h.pos row hrow
    · rw [List.mem_singleton.mp hrow]
      exact Nat.succ_pos _
  le_lastId := by
    intro row hrow
    rcases List.mem_append.mp hrow with hrow | hrow
    · exact Nat.le_succ_of_le (h.le_lastId row hrow)
    · rw [List.mem_singleton.mp hrow]
      exact Nat.le_refl _

theorem Keyed.change (h : s.Keyed) (hf : ∀ row, row.id = n → (f row).id = n)
    (hs : s.change n f = .ok s') : s'.Keyed := by
  have hid : ∀ row : Row, (if row.id = n then f row else row).id = row.id := by
    intro row
    split
    · rename_i hrow
      rw [hf row hrow, hrow]
    · rfl
  unfold Store.change at hs
  split at hs
  · cases hs
  · cases hs
    constructor
    · simpa only [List.pairwise_map, hid] using h.ascending
    · simpa only [List.forall_mem_map, hid] using h.pos
    · simpa only [List.forall_mem_map, hid] using h.le_lastId

theorem Keyed.filter (h : s.Keyed) (p : Row → Bool) :
    ({ s with rows := s.rows.filter p } : Store).Keyed where
  ascending := h.ascending.sublist List.filter_sublist
  pos row hrow := h.pos row (List.mem_of_mem_filter hrow)
  le_lastId row hrow := h.le_lastId row (List.mem_of_mem_filter hrow)

theorem Keyed.settle (h : s.Keyed) {change : Except StoreError Store}
    (hchange : ∀ s', change = .ok s' → s'.Keyed) : (s.settle change).1.Keyed := by
  cases change with
  | error e => exact h
  | ok s' => exact hchange s' rfl

theorem Keyed.update (h : s.Keyed) (hs : s.update task = .ok s') : s'.Keyed := by
  unfold Store.update at hs
  split at hs
  · cases hs
  · refine h.change ?_ hs
    intro row _
    rfl

theorem Keyed.delete {id : String} (h : s.Keyed) (hs : s.delete id = .ok s') : s'.Keyed := by
  unfold Store.delete at hs
  split at hs
  · cases hs
  · split at hs
    · cases hs
    · cases hs
      exact h.filter _

theorem Keyed.setDate {id date : String} (h : s.Keyed) (hs : s.setDate id date = .ok s') :
    s'.Keyed := by
  unfold Store.setDate at hs
  dsimp only at hs
  split at hs
  · cases hs
  · split at hs
    · cases hs
    · refine h.change ?_ hs
      intro row hrow
      exact hrow

theorem Keyed.perform (h : s.Keyed) (c : Call) : (s.perform c).1.Keyed := by
  cases c with
  | add task => exact h.add task
  | get id => exact h
  | update task => exact h.settle fun _ => h.update
  | delete id => exact h.settle fun _ => h.delete
  | setDate id date => exact h.settle fun _ => h.setDate
  | list query limit => exact h

theorem Reachable.keyed (h : s.Reachable) : s.Keyed := by
  induction h with
  | empty => exact keyed_empty
  | perform c h ih => exact ih.perform c

theorem Keyed.row?_add (h : s.Keyed) (task : Task) :
    (s.add task).1.row? (s.lastId + 1) = some (Row.ofTask (s.lastId + 1) task) := by
  have hnone : s.rows.find? (fun row => row.id == s.lastId + 1) = none := by
    rw [List.find?_eq_none]
    intro row hrow
    have hle := h.le_lastId row hrow
    simp only [beq_iff_eq]
    omega
  rw [Store.add, row?, List.find?_append, hnone]
  simp [Row.ofTask]

theorem get_eq_ok {id : String} (hid : readId id = .ok n) (hrow : s.row? n = some row) :
    s.get id = .ok row.toTask := by
  simp only [get, hid, hrow]

theorem exists_change_eq_ok (hrow : s.row? n = some row) (f : Row → Row) :
    ∃ s', s.change n f = .ok s' := by
  simp only [change, hrow, Except.ok.injEq, exists_eq']

theorem exists_delete_eq_ok {id : String} (hid : readId id = .ok n)
    (hrow : s.row? n = some row) : ∃ s', s.delete id = .ok s' := by
  simp only [delete, hid, hrow, Except.ok.injEq, exists_eq']

theorem setDate_eq_badDate {id date : String} (h : (trim date).utf8ByteSize ≠ 8) :
    s.setDate id date = .error .badDate := if_pos h

theorem exists_setDate_eq_ok {id date : String} (h : (trim date).utf8ByteSize = 8)
    (hid : readId id = .ok n) (hrow : s.row? n = some row) :
    ∃ s', s.setDate id date = .ok s' := by
  simp only [setDate, h, ne_eq, not_true_eq_false, if_false, hid]
  exact exists_change_eq_ok hrow _

end Store

end Agenda
