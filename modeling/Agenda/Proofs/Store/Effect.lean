import Agenda.Proofs.Store.Reachable

/-!
# What one call changes

An id is named by any integer literal of it, with blanks around it. In a store with ascending ids a
call that names one fails and changes nothing, or it replaces or removes the row with this id. All
other rows keep their places, and each is found as before. So every call either adds, rewrites,
removes or moves one row, or it leaves the store as it is.
-/

namespace Agenda

open Text

/-- The text is an integer literal of the id, with blanks around it. -/
structure NamesId (raw : String) (n : Nat) : Prop where
  pos : 0 < n
  le_max : n ≤ int64Max
  isInteger : IsInteger (trimmed raw.toList) n

theorem readId_eq_ok_iff {raw : String} {n : Nat} : readId raw = .ok n ↔ NamesId raw n := by
  unfold readId
  constructor
  · intro h
    split at h
    · rename_i k hk
      obtain ⟨hint, -, hmax⟩ := readInt64_eq_value_iff.mp hk
      split at h
      · rename_i hpos
        cases h
        have hcast : (k.toNat : Int) = k := Int.toNat_of_nonneg hpos.le
        exact ⟨by omega, by omega, by rwa [hcast]⟩
      · cases h
    · cases h
  · rintro ⟨hpos, hmax, hint⟩
    have hmin : int64Min = -9223372036854775808 := rfl
    rw [readInt64_eq_value_iff.mpr ⟨hint, by omega, hmax⟩]
    exact if_pos (Int.natCast_pos.mpr hpos)

theorem readId_cases (raw : String) :
    (∃ n, NamesId raw n ∧ readId raw = .ok n) ∨
      ((∀ n, ¬ NamesId raw n) ∧ readId raw = .error .badId) := by
  cases hread : readId raw with
  | ok n => exact .inl ⟨n, readId_eq_ok_iff.mp hread, rfl⟩
  | error e =>
    refine .inr ⟨fun n hn => ?_, ?_⟩
    · rw [readId_eq_ok_iff.mpr hn] at hread
      cases hread
    · unfold readId at hread
      split at hread
      · split at hread
        · cases hread
        · rw [← hread]
      · rw [← hread]

theorem NamesId.unique {raw : String} {m n : Nat} (hm : NamesId raw m) (hn : NamesId raw n) :
    m = n :=
  Int.ofNat.inj (hm.isInteger.unique hn.isInteger)

theorem NamesId.trim_ne_empty {raw : String} {n : Nat} (h : NamesId raw n) : trim raw ≠ "" := by
  intro hempty
  apply h.isInteger.ne_nil
  rw [← toList_trim, hempty]
  rfl

@[simp] theorem namesId_trim {raw : String} {n : Nat} : NamesId (trim raw) n ↔ NamesId raw n := by
  rw [← readId_eq_ok_iff, ← readId_eq_ok_iff, readId, readId, toList_trim, trimmed_trimmed]

/-- A call with the answer to it. -/
structure Exchange where
  call : Call
  answer : call.Answer

/-- What is under the id has been put there, changed or taken away. -/
inductive Exchange.Touches (i : Nat) : Exchange → Prop
  | add (task : Task) : Touches i ⟨.add task, i⟩
  | update {task : Task} (h : NamesId task.id i) : Touches i ⟨.update task, .ok ()⟩
  | delete {raw : String} (h : NamesId raw i) : Touches i ⟨.delete raw, .ok ()⟩
  | setDate {raw date : String} (h : NamesId raw i) : Touches i ⟨.setDate raw date, .ok ()⟩

namespace Store

variable {s s' s₁ s₂ : Store} {task : Task} {n k : Nat} {id date : String} {row : Row}
  {result : Option Row}

/-- Exactly one row is replaced, or removed when nothing takes its place. -/
def Replaces (s : Store) (row : Row) (result : Option Row) (s' : Store) : Prop :=
  ∃ before after, s.rows = before ++ row :: after ∧
    s' = { s with rows := before ++ (result.toList ++ after) }

theorem id_of_row? (h : s.row? n = some row) : row.id = n := by
  simpa using List.find?_some h

theorem mem_of_row? (h : s.row? n = some row) : row ∈ s.rows := List.mem_of_find?_eq_some h

theorem Keyed.ne_of_split (hs : s.Keyed) {before after : List Row}
    (hrows : s.rows = before ++ row :: after) : ∀ x ∈ before ++ after, x.id ≠ row.id := by
  have hascending := hs.ascending
  rw [hrows, List.pairwise_append, List.pairwise_cons] at hascending
  obtain ⟨-, ⟨hafter, -⟩, hbefore⟩ := hascending
  intro x hx
  rcases List.mem_append.mp hx with hx | hx
  · exact Nat.ne_of_lt (hbefore x hx row List.mem_cons_self)
  · exact (Nat.ne_of_lt (hafter x hx)).symm

theorem Keyed.row?_of_mem (hs : s.Keyed) (h : row ∈ s.rows) : s.row? row.id = some row := by
  obtain ⟨before, after, hrows⟩ := List.append_of_mem h
  have hbefore : before.find? (fun x => x.id == row.id) = none := by
    rw [List.find?_eq_none]
    intro x hx
    simpa using hs.ne_of_split hrows x (List.mem_append_left _ hx)
  simp [row?, hrows, hbefore]

theorem get_cases (s : Store) (raw : String) :
    (∃ row, NamesId raw row.id ∧ s.row? row.id = some row ∧ s.get raw = .ok row.toTask) ∨
      (∃ n, NamesId raw n ∧ s.row? n = none ∧ s.get raw = .error .notFound) ∨
      ((∀ n, ¬ NamesId raw n) ∧ s.get raw = .error .badId) := by
  unfold Store.get
  rcases readId_cases raw with ⟨n, hid, hread⟩ | ⟨hid, hread⟩
  · rw [hread]
    dsimp only
    cases hrow : s.row? n with
    | none => exact .inr (.inl ⟨n, hid, hrow, rfl⟩)
    | some row =>
      obtain rfl := id_of_row? hrow
      exact .inl ⟨row, hid, hrow, rfl⟩
  · rw [hread]
    exact .inr (.inr ⟨hid, rfl⟩)

theorem row?_add (h : s.row? n = some row) (task : Task) : (s.add task).1.row? n = some row := by
  rw [row?] at h
  simp [Store.add, row?, List.find?_append, h]

theorem Replaces.mem (h : s.Replaces row result s') : row ∈ s.rows := by
  obtain ⟨before, after, hrows, -⟩ := h
  rw [hrows]
  exact List.mem_append_right _ List.mem_cons_self

theorem Replaces.mem_result (h : s.Replaces row result s') : ∀ x ∈ result, x ∈ s'.rows := by
  obtain ⟨before, after, -, rfl⟩ := h
  intro x hx
  simp [Option.mem_toList.mpr hx]

theorem Replaces.lastId_eq (h : s.Replaces row result s') : s'.lastId = s.lastId := by
  obtain ⟨before, after, -, rfl⟩ := h
  rfl

theorem Replaces.mem_or_mem (h : s.Replaces row result s') {x : Row} (hx : x ∈ s'.rows) :
    x ∈ s.rows ∨ x ∈ result := by
  obtain ⟨before, after, hrows, rfl⟩ := h
  simp only [List.mem_append, Option.mem_toList] at hx
  rw [hrows, List.mem_append, List.mem_cons]
  rcases hx with hx | hx | hx
  · exact .inl (.inl hx)
  · exact .inr hx
  · exact .inl (.inr (.inr hx))

theorem Keyed.replaces_unique (hs : s.Keyed) (h₁ : s.Replaces row result s₁)
    (h₂ : s.Replaces row result s₂) : s₁ = s₂ := by
  obtain ⟨before, after, hrows, rfl⟩ := h₁
  obtain ⟨before', after', hrows', rfl⟩ := h₂
  have hne := hs.ne_of_split hrows
  have hbefore : row ∉ before := fun h => hne row (List.mem_append_left _ h) rfl
  have hafter : row ∉ after := fun h => hne row (List.mem_append_right _ h) rfl
  obtain ⟨rfl, -, rfl⟩ :=
    (List.append_cons_inj_of_notMem hbefore hafter).mp (hrows.symm.trans hrows')
  rfl

/-- When the row of an id is replaced, each id finds what it found, and this id the result. -/
theorem Keyed.row?_of_replaces (hs : s.Keyed) (h : s.Replaces row result s')
    (hid : ∀ x ∈ result, x.id = row.id) :
    s'.row? k = if k = row.id then result else s.row? k := by
  obtain ⟨before, after, hrows, rfl⟩ := h
  have hne := hs.ne_of_split hrows
  have hnone : ∀ part : List Row, part ⊆ before ++ after →
      part.find? (fun x => x.id == row.id) = none := by
    intro part hpart
    rw [List.find?_eq_none]
    intro x hx
    simpa using hne x (hpart hx)
  have hbefore := hnone before (List.subset_append_left _ _)
  have hafter := hnone after (List.subset_append_right _ _)
  simp only [row?, hrows, List.find?_append, List.find?_cons]
  split
  · rename_i hk
    subst hk
    rw [hbefore, hafter]
    cases result with
    | none => rfl
    | some x => simp [hid x rfl]
  · rename_i hk
    have hrow : (row.id == k) = false := by simpa using Ne.symm hk
    cases result with
    | none => simp [hrow]
    | some x => simp [hid x rfl, hrow]

theorem Keyed.row?_cases_of_replaces (hs : s.Keyed) {x : Row} (h : s.Replaces x result s')
    (hid : ∀ y ∈ result, y.id = x.id) (hrow : s.row? n = some row) :
    s'.row? n = some row ∨ (x = row ∧ s'.row? n = result) := by
  rw [hs.row?_of_replaces h hid]
  split
  · rename_i hn
    rw [hn, hs.row?_of_mem h.mem] at hrow
    exact .inr ⟨Option.some.inj hrow, rfl⟩
  · exact .inl hrow

theorem Replaces.trans {x : Row} (h₁ : s.Replaces row (some x) s₁) (hs₁ : s₁.Keyed)
    (h₂ : s₁.Replaces x result s₂) : s.Replaces row result s₂ := by
  obtain ⟨before, after, hrows, rfl⟩ := h₁
  have h : ({ s with rows := before ++ x :: after } : Store).Replaces x result
      { s with rows := before ++ (result.toList ++ after) } := ⟨before, after, rfl, rfl⟩
  exact ⟨before, after, hrows, hs₁.replaces_unique h₂ h⟩

/-- What a call answers that puts `f row` in the place of the row with the id. -/
inductive Changes (s : Store) (id : String) (f : Row → Option Row) : Except StoreError Store → Prop
  | badId (h : ∀ n, ¬ NamesId id n) : Changes s id f (.error .badId)
  | notFound {n : Nat} (h : NamesId id n) (hrow : s.row? n = none) :
    Changes s id f (.error .notFound)
  | replaces {n : Nat} {row : Row} {s' : Store} (h : NamesId id n) (hrow : s.row? n = some row)
    (hreplaces : s.Replaces row (f row) s') : Changes s id f (.ok s')

theorem Changes.exists_eq_ok {f : Row → Option Row} {change : Except StoreError Store}
    (h : s.Changes id f change) (hid : NamesId id n) (hrow : s.row? n = some row) :
    ∃ s', change = .ok s' ∧ s.Replaces row (f row) s' := by
  cases h with
  | badId hnone => exact absurd hid (hnone n)
  | notFound hid' hnone =>
    obtain rfl := hid'.unique hid
    rw [hnone] at hrow
    cases hrow
  | replaces hid' hrow' hreplaces =>
    obtain rfl := hid'.unique hid
    obtain rfl := Option.some.inj (hrow'.symm.trans hrow)
    exact ⟨_, rfl, hreplaces⟩

theorem Changes.eq_notFound {f : Row → Option Row} {change : Except StoreError Store}
    (h : s.Changes id f change) (hid : NamesId id n) (hrow : s.row? n = none) :
    change = .error .notFound := by
  cases h with
  | badId hnone => exact absurd hid (hnone n)
  | notFound => rfl
  | replaces hid' hrow' =>
    obtain rfl := hid'.unique hid
    rw [hrow] at hrow'
    cases hrow'

theorem change_congr {f g : Row → Row} (h : ∀ row, row.id = n → f row = g row) :
    s.change n f = s.change n g := by
  have hmap : ∀ row, (if row.id = n then f row else row) = if row.id = n then g row else row := by
    intro row
    split
    · exact h row ‹_›
    · rfl
  simp only [change, hmap]

theorem Keyed.replaces_change (hs : s.Keyed) (hrow : s.row? n = some row) (f : Row → Row) :
    ∃ s', s.change n f = .ok s' ∧ s.Replaces row (some (f row)) s' := by
  obtain rfl := id_of_row? hrow
  obtain ⟨before, after, hrows⟩ := List.append_of_mem (mem_of_row? hrow)
  have hne := hs.ne_of_split hrows
  have hsame : ∀ part : List Row, part ⊆ before ++ after →
      part.map (fun x => if x.id = row.id then f x else x) = part := by
    intro part hpart
    rw [List.map_congr_left fun x hx => if_neg (hne x (hpart hx)), List.map_id']
  refine ⟨{ s with rows := s.rows.map fun x => if x.id = row.id then f x else x }, ?_,
    before, after, hrows, ?_⟩
  · rw [Store.change, hrow]
  · rw [hrows, List.map_append, List.map_cons, if_pos rfl,
      hsame before (List.subset_append_left _ _), hsame after (List.subset_append_right _ _)]
    rfl

theorem Keyed.changes_change (hs : s.Keyed) (hid : NamesId id n) (f : Row → Row) :
    Changes s id (fun row => some (f row)) (s.change n f) := by
  cases hrow : s.row? n with
  | none =>
    rw [Store.change, hrow]
    exact .notFound hid hrow
  | some row =>
    obtain ⟨s', hs', hreplaces⟩ := hs.replaces_change hrow f
    rw [hs']
    exact .replaces hid hrow hreplaces

theorem Keyed.changes_update (hs : s.Keyed) (task : Task) :
    Changes s task.id (fun row => some (Row.ofTask row.id task)) (s.update task) := by
  unfold Store.update
  rcases readId_cases task.id with ⟨n, hid, hread⟩ | ⟨hid, hread⟩
  · rw [hread]
    dsimp only
    rw [change_congr (g := fun row => Row.ofTask row.id task) fun row hrow => hrow ▸ rfl]
    exact hs.changes_change hid _
  · rw [hread]
    exact .badId hid

theorem Keyed.changes_setDate (hs : s.Keyed) (hdate : (trim date).utf8ByteSize = 8) :
    Changes s id (fun row => some { row with date := trim date }) (s.setDate id date) := by
  unfold Store.setDate
  rw [if_neg (not_not_intro hdate)]
  rcases readId_cases id with ⟨n, hid, hread⟩ | ⟨hid, hread⟩
  · rw [hread]
    exact hs.changes_change hid _
  · rw [hread]
    exact .badId hid

theorem Keyed.replaces_filter (hs : s.Keyed) (hrow : s.row? n = some row) :
    s.Replaces row none { s with rows := s.rows.filter fun x => x.id != n } := by
  obtain rfl := id_of_row? hrow
  obtain ⟨before, after, hrows⟩ := List.append_of_mem (mem_of_row? hrow)
  have hne := hs.ne_of_split hrows
  have hsame : ∀ part : List Row, part ⊆ before ++ after →
      part.filter (fun x => x.id != row.id) = part := by
    intro part hpart
    rw [List.filter_eq_self]
    intro x hx
    simpa using hne x (hpart hx)
  refine ⟨before, after, hrows, ?_⟩
  rw [hrows, List.filter_append, List.filter_cons_of_neg (by simp),
    hsame before (List.subset_append_left _ _), hsame after (List.subset_append_right _ _)]
  rfl

theorem Keyed.changes_delete (hs : s.Keyed) : Changes s id (fun _ => none) (s.delete id) := by
  unfold Store.delete
  rcases readId_cases id with ⟨n, hid, hread⟩ | ⟨hid, hread⟩
  · rw [hread]
    dsimp only
    cases hrow : s.row? n with
    | none => exact .notFound hid hrow
    | some row => exact .replaces hid hrow (hs.replaces_filter hrow)
  · rw [hread]
    exact .badId hid

variable {x : Exchange} {i : Nat}

/-- What a call can do to a store, with the answer to it. -/
inductive Outcome (s : Store) : Exchange → Store → Prop
  | added (task : Task) : Outcome s ⟨.add task, s.lastId + 1⟩ (s.add task).1
  | rewritten {task : Task} {row : Row} {s' : Store} (hid : NamesId task.id row.id)
    (h : s.Replaces row (some (Row.ofTask row.id task)) s') : Outcome s ⟨.update task, .ok ()⟩ s'
  | removed {raw : String} {row : Row} {s' : Store} (hid : NamesId raw row.id)
    (h : s.Replaces row none s') : Outcome s ⟨.delete raw, .ok ()⟩ s'
  | moved {raw date : String} {row : Row} {s' : Store} (hid : NamesId raw row.id)
    (h : s.Replaces row (some { row with date := trim date }) s') :
    Outcome s ⟨.setDate raw date, .ok ()⟩ s'
  | silent {x : Exchange} (h : ∀ i, ¬ x.Touches i) : Outcome s x s

theorem Changes.settle_cases {raw : String} {f : Row → Option Row}
    {change : Except StoreError Store} (h : s.Changes raw f change) :
    (∃ e, s.settle change = (s, .error e)) ∨
      ∃ row s', NamesId raw row.id ∧ s.Replaces row (f row) s' ∧
        s.settle change = (s', .ok ()) := by
  cases h with
  | badId => exact .inl ⟨_, rfl⟩
  | notFound => exact .inl ⟨_, rfl⟩
  | replaces hid hrow hreplaces =>
    obtain rfl := id_of_row? hrow
    exact .inr ⟨_, _, hid, hreplaces, rfl⟩

theorem Keyed.outcome (hs : s.Keyed) (c : Call) :
    s.Outcome ⟨c, (s.perform c).2⟩ (s.perform c).1 := by
  cases c with
  | add task => exact .added task
  | get raw => exact .silent nofun
  | update task =>
    rw [Store.perform]
    rcases (hs.changes_update task).settle_cases with ⟨e, h⟩ | ⟨row, s', hid, hreplaces, h⟩
    · rw [h]
      exact .silent nofun
    · rw [h]
      exact .rewritten hid hreplaces
  | delete raw =>
    have hchanges : s.Changes raw (fun _ => none) (s.delete raw) := hs.changes_delete
    rw [Store.perform]
    rcases hchanges.settle_cases with ⟨e, h⟩ | ⟨row, s', hid, hreplaces, h⟩
    · rw [h]
      exact .silent nofun
    · rw [h]
      exact .removed hid hreplaces
  | setDate raw date =>
    rw [Store.perform]
    by_cases hsize : (trim date).utf8ByteSize = 8
    · have hchanges : s.Changes raw _ (s.setDate raw date) := hs.changes_setDate hsize
      rcases hchanges.settle_cases with ⟨e, h⟩ | ⟨row, s', hid, hreplaces, h⟩
      · rw [h]
        exact .silent nofun
      · rw [h]
        exact .moved hid hreplaces
    · rw [setDate_eq_badDate hsize]
      exact .silent nofun
  | list query limit => exact .silent nofun

theorem Keyed.row?_add_eq (hs : s.Keyed) (task : Task) : (s.add task).1.row? i =
    if i = s.lastId + 1 then some (Row.ofTask i task) else s.row? i := by
  split
  · rename_i hi
    rw [hi, hs.row?_add]
  · rename_i hi
    have hnew : ((Row.ofTask (s.lastId + 1) task).id == i) = false := by
      simpa [Row.ofTask] using Ne.symm hi
    simp [Store.add, row?, List.find?_append, hnew]

/-- What is under an id stays as it is in calls that are not about the id. -/
theorem Outcome.row?_eq (hs : s.Keyed) (houtcome : s.Outcome x s') (hx : ¬ x.Touches i) :
    s'.row? i = s.row? i := by
  cases houtcome with
  | added task =>
    have hi : i ≠ s.lastId + 1 := by
      rintro rfl
      exact hx (.add task)
    rw [hs.row?_add_eq, if_neg hi]
  | @rewritten task row s' hid hreplaces =>
    have hi : i ≠ row.id := by
      rintro rfl
      exact hx (.update hid)
    rw [hs.row?_of_replaces hreplaces (by simp [Row.ofTask]), if_neg hi]
  | @removed raw row s' hid hreplaces =>
    have hi : i ≠ row.id := by
      rintro rfl
      exact hx (.delete hid)
    rw [hs.row?_of_replaces hreplaces (by simp), if_neg hi]
  | @moved raw date row s' hid hreplaces =>
    have hi : i ≠ row.id := by
      rintro rfl
      exact hx (.setDate hid)
    rw [hs.row?_of_replaces hreplaces (by simp), if_neg hi]
  | silent => rfl

theorem Outcome.lastId_le (houtcome : s.Outcome x s') : s.lastId ≤ s'.lastId := by
  cases houtcome with
  | added task => exact Nat.le_succ _
  | rewritten _ h => exact h.lastId_eq.ge
  | removed _ h => exact h.lastId_eq.ge
  | moved _ h => exact h.lastId_eq.ge
  | silent => exact Nat.le_refl _

end Store
end Agenda
