import Agenda.Proofs.Store.Effect

/-!
# What a store remembers

A store goes through calls, and its file may be closed and opened again in between. Each answer can
be told from the calls before it and their answers: a task is there from the call that has added it
to the one that deletes it, with the date and the texts that were last put under its id. The ids
grow, so none is used twice.
-/

namespace Agenda

open Text

/-- The text that should name an id, in a call of one task. -/
def Call.id? : Call → Option String
  | add _ => none
  | get raw => some raw
  | update task => some task.id
  | delete raw => some raw
  | setDate raw _ => some raw
  | list _ _ => none

namespace Exchange

/-- A task is added under the id. -/
inductive Adds (i : Nat) : Exchange → Prop
  | add (task : Task) : Adds i ⟨.add task, i⟩

inductive Deletes (i : Nat) : Exchange → Prop
  | delete {raw : String} (h : NamesId raw i) : Deletes i ⟨.delete raw, .ok ()⟩

/-- The texts of the task are put under the id. -/
inductive Writes (i : Nat) : Exchange → Task → Prop
  | add (task : Task) : Writes i ⟨.add task, i⟩ task
  | update {task : Task} (h : NamesId task.id i) : Writes i ⟨.update task, .ok ()⟩ task

/-- The date is put under the id, with other texts or on its own. -/
inductive Dates (i : Nat) : Exchange → String → Prop
  | writes {x : Exchange} {task : Task} (h : x.Writes i task) : Dates i x task.date
  | setDate {raw : String} (date : String) (h : NamesId raw i) :
    Dates i ⟨.setDate raw date, .ok ()⟩ (trim date)

inductive Fails : Exchange → Prop
  | get {raw : String} (e : StoreError) : Fails ⟨.get raw, .error e⟩
  | update {task : Task} (e : StoreError) : Fails ⟨.update task, .error e⟩
  | delete {raw : String} (e : StoreError) : Fails ⟨.delete raw, .error e⟩
  | setDate {raw date : String} (e : StoreError) : Fails ⟨.setDate raw date, .error e⟩
  | list {query : Query} {limit : Nat} (e : StoreError) : Fails ⟨.list query limit, .error e⟩

variable {x : Exchange} {i : Nat}

theorem Adds.touches (h : x.Adds i) : x.Touches i := by
  cases h with
  | add task => exact .add task

theorem Deletes.touches (h : x.Deletes i) : x.Touches i := by
  cases h with
  | delete h => exact .delete h

theorem Writes.touches {task : Task} (h : x.Writes i task) : x.Touches i := by
  cases h with
  | add => exact .add task
  | update h => exact .update h

theorem Dates.touches {date : String} (h : x.Dates i date) : x.Touches i := by
  cases h with
  | writes h => exact h.touches
  | setDate _ h => exact .setDate h

theorem not_touches_of_ne {raw : String} {j : Nat} (hcall : x.call.id? = some raw)
    (hj : NamesId raw j) (hne : i ≠ j) : ¬ x.Touches i := by
  intro h
  cases h with
  | add => cases hcall
  | update h =>
    cases hcall
    exact hne (h.unique hj)
  | delete h =>
    cases hcall
    exact hne (h.unique hj)
  | setDate h =>
    cases hcall
    exact hne (h.unique hj)

end Exchange

variable {α : Type} {x : Exchange} {past : List Exchange} {i j : Nat}

/-- In exchanges that are listed from the latest to the first, one does the one thing, and none
after it the other. -/
def Since (p q : Exchange → Prop) (past : List Exchange) : Prop :=
  ∃ later x earlier, past = later ++ x :: earlier ∧ p x ∧ ∀ y ∈ later, ¬ q y

theorem not_since_nil {p q : Exchange → Prop} : ¬ Since p q [] := by
  rintro ⟨later, x, earlier, h, -⟩
  simp at h

theorem since_cons {p q : Exchange → Prop} :
    Since p q (x :: past) ↔ p x ∨ (Since p q past ∧ ¬ q x) := by
  constructor
  · rintro ⟨later, y, earlier, h, hy, hlater⟩
    cases later with
    | nil =>
      cases h
      exact .inl hy
    | cons z later =>
      cases h
      rw [List.forall_mem_cons] at hlater
      exact .inr ⟨⟨later, y, earlier, rfl, hy, hlater.2⟩, hlater.1⟩
  · rintro (hx | ⟨⟨later, y, earlier, rfl, hy, hlater⟩, hx⟩)
    · exact ⟨[], x, past, rfl, hx, by simp⟩
    · exact ⟨x :: later, y, earlier, rfl, hy, List.forall_mem_cons.mpr ⟨hx, hlater⟩⟩

/-- A task has been added under the id, and not been deleted since. -/
def Held (i : Nat) (past : List Exchange) : Prop := Since (·.Adds i) (·.Deletes i) past

/-- The value is the one that was put last. -/
def Latest (puts : Exchange → α → Prop) (past : List Exchange) (value : α) : Prop :=
  Since (puts · value) (fun x => ∃ w, puts x w) past

namespace Store

/-- The store that a file is opened with: the one that it keeps, or an empty one when it is new. The
schema is set up at every opening, but only where it does not exist: an old file stays as it is. -/
def opened (file : Option Store) : Store := file.getD empty

/-- The store has answered these calls since its file was new, the latest first. -/
inductive HasPast : Store → List Exchange → Prop
  | opened : HasPast (opened none) []
  | perform {s : Store} {past : List Exchange} (h : HasPast s past) (c : Call) :
    HasPast (s.perform c).1 (⟨c, (s.perform c).2⟩ :: past)
  | reopened {s : Store} {past : List Exchange} (h : HasPast s past) :
    HasPast (Store.opened (some s)) past

variable {s s' : Store} {row : Row}

/-- The row with the id, or its absence, is what has come of the exchanges. -/
inductive Records (past : List Exchange) (i : Nat) : Option Row → Prop
  | absent (h : ¬ Held i past) : Records past i none
  | present {row : Row} {task : Task} (hid : row.id = i) (hheld : Held i past)
    (hdate : Latest (Exchange.Dates i) past row.date)
    (hwrites : Latest (Exchange.Writes i) past task) (htitle : row.title = task.title)
    (hcomment : row.comment = task.comment) (hrepeat : row.repeatRule = task.repeatRule) :
    Records past i (some row)

theorem Records.cons_of_not_touches {result : Option Row} (h : Records past i result)
    (hx : ¬ x.Touches i) : Records (x :: past) i result := by
  cases h with
  | absent h =>
    refine .absent fun hheld => ?_
    rcases since_cons.mp hheld with hadds | ⟨hheld, -⟩
    · exact hx hadds.touches
    · exact h hheld
  | present hid hheld hdate hwrites htitle hcomment hrepeat =>
    refine .present hid (since_cons.mpr (.inr ⟨hheld, ?_⟩)) (since_cons.mpr (.inr ⟨hdate, ?_⟩))
      (since_cons.mpr (.inr ⟨hwrites, ?_⟩)) htitle hcomment hrepeat
    · exact fun h => hx h.touches
    · rintro ⟨date, h⟩
      exact hx h.touches
    · rintro ⟨task, h⟩
      exact hx h.touches

theorem Records.held_iff {result : Option Row} (h : Records past i result) :
    Held i past ↔ result.isSome = true := by
  cases h with
  | absent h => simp [h]
  | present _ hheld => simp [hheld]

theorem Records.cons_writes {task : Task} (hx : x.Writes i task) (hheld : Held i (x :: past)) :
    Records (x :: past) i (some (Row.ofTask i task)) :=
  .present rfl hheld (since_cons.mpr (.inl (.writes hx))) (since_cons.mpr (.inl hx)) rfl rfl rfl

theorem Records.cons_delete {raw : String} (hid : NamesId raw i) :
    Records (⟨.delete raw, .ok ()⟩ :: past) i none := by
  refine .absent fun hheld => ?_
  rcases since_cons.mp hheld with hadds | ⟨-, hkept⟩
  · cases hadds
  · exact hkept (.delete hid)

theorem Records.cons_setDate {raw date : String} (hid : NamesId raw row.id)
    (h : Records past row.id (some row)) :
    Records (⟨.setDate raw date, .ok ()⟩ :: past) row.id (some { row with date := trim date }) := by
  cases h with
  | present _ hheld _ hwrites htitle hcomment hrepeat =>
    -- only the date goes back to this call, the texts to the one that they went back to
    refine .present rfl (since_cons.mpr (.inr ⟨hheld, ?_⟩))
      (since_cons.mpr (.inl (.setDate date hid))) (since_cons.mpr (.inr ⟨hwrites, ?_⟩))
      htitle hcomment hrepeat
    · intro hdeletes
      cases hdeletes
    · rintro ⟨task, hwrites⟩
      cases hwrites

theorem Keyed.records_row (hs : s.Keyed) {result : Option Row}
    (hreplaces : s.Replaces row result s') (h : ∀ i, Records past i (s.row? i)) :
    Records past row.id (some row) := by
  have hrow := h row.id
  rwa [hs.row?_of_mem hreplaces.mem] at hrow

theorem Outcome.records_of_touches (hs : s.Keyed) (houtcome : s.Outcome x s')
    (h : ∀ i, Records past i (s.row? i)) (hx : x.Touches i) :
    Records (x :: past) i (s'.row? i) := by
  cases houtcome with
  | added task =>
    have hi : i = s.lastId + 1 := by
      cases hx
      rfl
    subst hi
    rw [hs.row?_add]
    exact .cons_writes (.add task) (since_cons.mpr (.inl (.add task)))
  | @rewritten task row s' hid hreplaces =>
    cases hx with
    | update hi =>
      obtain rfl := hi.unique hid
      rw [hs.row?_of_replaces hreplaces (by simp [Row.ofTask]), if_pos rfl]
      -- what is rewritten was there, so it has been added and not been deleted
      have hheld := (hs.records_row hreplaces h).held_iff.mpr rfl
      refine .cons_writes (.update hid) (since_cons.mpr (.inr ⟨hheld, ?_⟩))
      intro hdeletes
      cases hdeletes
  | @removed raw row s' hid hreplaces =>
    cases hx with
    | delete hi =>
      obtain rfl := hi.unique hid
      rw [hs.row?_of_replaces hreplaces (by simp), if_pos rfl]
      exact .cons_delete hid
  | @moved raw date row s' hid hreplaces =>
    cases hx with
    | setDate hi =>
      obtain rfl := hi.unique hid
      rw [hs.row?_of_replaces hreplaces (by simp), if_pos rfl]
      exact (hs.records_row hreplaces h).cons_setDate hid
  | silent hsilent => exact absurd hx (hsilent i)

/-- Whatever a call does, the rows are then what has come of it and of the calls before. -/
theorem Outcome.records (hs : s.Keyed) (houtcome : s.Outcome x s')
    (h : ∀ i, Records past i (s.row? i)) (i : Nat) : Records (x :: past) i (s'.row? i) := by
  by_cases hx : x.Touches i
  · exact houtcome.records_of_touches hs h hx
  · rw [houtcome.row?_eq hs hx]
    exact (h i).cons_of_not_touches hx

theorem Outcome.eq_of_fails (houtcome : s.Outcome x s') (hx : x.Fails) : s' = s := by
  cases houtcome with
  | added => cases hx
  | rewritten => cases hx
  | removed => cases hx
  | moved => cases hx
  | silent => rfl

theorem Outcome.id_of_adds (houtcome : s.Outcome x s') (hadds : x.Adds i) :
    s.lastId < i ∧ i ≤ s'.lastId := by
  cases houtcome with
  | added task =>
    cases hadds
    exact ⟨Nat.lt_succ_self _, Nat.le_refl _⟩
  | rewritten => cases hadds
  | removed => cases hadds
  | moved => cases hadds
  | silent h => exact absurd hadds.touches (h i)

def Ascending (past : List Exchange) : Prop :=
  past.Pairwise fun later earlier => ∀ i j, later.Adds i → earlier.Adds j → j < i

/-- The store is what has come of the exchanges. -/
structure Recalls (s : Store) (past : List Exchange) : Prop where
  keyed : s.Keyed
  records : ∀ i, Records past i (s.row? i)
  le_lastId : ∀ x ∈ past, ∀ i, x.Adds i → i ≤ s.lastId
  ascending : Ascending past

theorem recalls_empty : empty.Recalls [] where
  keyed := keyed_empty
  records i := .absent not_since_nil
  le_lastId := by simp
  ascending := .nil

theorem Recalls.perform (h : s.Recalls past) (c : Call) :
    (s.perform c).1.Recalls (⟨c, (s.perform c).2⟩ :: past) := by
  have houtcome := h.keyed.outcome c
  refine ⟨h.keyed.perform c, houtcome.records h.keyed h.records, ?_, ?_⟩
  -- an id that is added now is above the highest one so far, and no call lowers that
  · intro x hx i hadds
    rcases List.mem_cons.mp hx with rfl | hx
    · exact (houtcome.id_of_adds hadds).2
    · exact (h.le_lastId x hx i hadds).trans houtcome.lastId_le
  · refine List.pairwise_cons.mpr ⟨?_, h.ascending⟩
    intro earlier hearlier i j hi hj
    exact (h.le_lastId earlier hearlier j hj).trans_lt (houtcome.id_of_adds hi).1

theorem HasPast.recalls (h : s.HasPast past) : s.Recalls past := by
  induction h with
  | opened => exact recalls_empty
  | perform h c ih => exact ih.perform c
  | reopened h ih => exact ih

/-- The answer to a call of one task, as the past has it. -/
inductive Verdict (past : List Exchange) (raw : String) : Except StoreError Unit → Prop
  | badId (h : ∀ i, ¬ NamesId raw i) : Verdict past raw (.error .badId)
  | notFound {i : Nat} (hid : NamesId raw i) (h : ¬ Held i past) :
    Verdict past raw (.error .notFound)
  | found {i : Nat} (hid : NamesId raw i) (h : Held i past) : Verdict past raw (.ok ())

theorem Recalls.held_iff (h : s.Recalls past) : Held i past ↔ (s.row? i).isSome = true :=
  (h.records i).held_iff

theorem Recalls.not_held_of_none (h : s.Recalls past) (hrow : s.row? i = none) :
    ¬ Held i past := by
  rw [h.held_iff, hrow]
  simp

theorem Recalls.held_of_some (h : s.Recalls past) (hrow : s.row? i = some row) :
    Held i past := by
  rw [h.held_iff, hrow]
  rfl

theorem Recalls.verdict_settle (h : s.Recalls past) {raw : String} {f : Row → Option Row}
    {change : Except StoreError Store} (hchange : s.Changes raw f change) :
    Verdict past raw (s.settle change).2 := by
  cases hchange with
  | badId hid => exact .badId hid
  | notFound hid hrow => exact .notFound hid (h.not_held_of_none hrow)
  | replaces hid hrow => exact .found hid (h.held_of_some hrow)

theorem Recalls.verdict_get (h : s.Recalls past) (raw : String) :
    Verdict past raw ((s.get raw).map fun _ => ()) := by
  rcases s.get_cases raw with ⟨row, hid, hrow, hget⟩ | ⟨i, hid, hrow, hget⟩ | ⟨hid, hget⟩
  · rw [hget]
    exact .found hid (h.held_of_some hrow)
  · rw [hget]
    exact .notFound hid (h.not_held_of_none hrow)
  · rw [hget]
    exact .badId hid

theorem Recalls.exists_get_iff (h : s.Recalls past) (raw : String) :
    (∃ task, s.get raw = .ok task) ↔ ∃ i, NamesId raw i ∧ Held i past := by
  constructor
  · rintro ⟨task, hget⟩
    have hverdict := h.verdict_get raw
    rw [hget] at hverdict
    cases hverdict with
    | found hid hheld => exact ⟨_, hid, hheld⟩
  · rintro ⟨i, hid, hheld⟩
    rw [h.held_iff, Option.isSome_iff_exists] at hheld
    obtain ⟨row, hrow⟩ := hheld
    exact ⟨_, get_eq_ok (readId_eq_ok_iff.mpr hid) hrow⟩

theorem Recalls.of_get (h : s.Recalls past) {raw : String} {task : Task} (hid : NamesId raw i)
    (hget : s.get raw = .ok task) :
    task.id = String.ofList (digits i) ∧ Latest (Exchange.Dates i) past task.date ∧
      ∃ written, Latest (Exchange.Writes i) past written ∧ task.title = written.title ∧
        task.comment = written.comment ∧ task.repeatRule = written.repeatRule := by
  rcases s.get_cases raw with ⟨row, hid', hrow, hrow'⟩ | ⟨_, -, -, hnone⟩ | ⟨-, hbad⟩
  · rw [hget] at hrow'
    cases hrow'
    obtain rfl := hid'.unique hid
    have hrecords := h.records row.id
    rw [hrow] at hrecords
    cases hrecords with
    | present _ _ hdate hwrites htitle hcomment hrepeat =>
      exact ⟨rfl, hdate, _, hwrites, htitle, hcomment, hrepeat⟩
  · rw [hnone] at hget
    cases hget
  · rw [hbad] at hget
    cases hget

theorem Recalls.get_eq_of_ne (h : s.Recalls past) {c : Call} {named raw : String}
    (hcall : c.id? = some named) (hj : NamesId named j) (hi : NamesId raw i) (hne : i ≠ j) :
    (s.perform c).1.get raw = s.get raw := by
  have hrow := (h.keyed.outcome c).row?_eq h.keyed (Exchange.not_touches_of_ne hcall hj hne)
  simp only [get, readId_eq_ok_iff.mpr hi, hrow]

/-- The past of a store tells all answers. Ids grow; a look-up finds what has been added and not
been deleted, with the date and the texts that were put last; a call of one task is refused for an
id that is none, and for one under which there is nothing. What fails changes nothing, and a call
that names one id does not change what is found under another. -/
theorem answers_follow_past {s : Store} {past : List Exchange} (h : s.HasPast past) :
    (past.Pairwise fun later earlier => ∀ i j, later.Adds i → earlier.Adds j → j < i) ∧
    (∀ raw, (∃ task, s.get raw = .ok task) ↔ ∃ i, NamesId raw i ∧ Held i past) ∧
    (∀ raw i task, NamesId raw i → s.get raw = .ok task →
      task.id = String.ofList (digits i) ∧ Latest (Exchange.Dates i) past task.date ∧
        ∃ written, Latest (Exchange.Writes i) past written ∧ task.title = written.title ∧
          task.comment = written.comment ∧ task.repeatRule = written.repeatRule) ∧
    (∀ raw, Verdict past raw ((s.get raw).map fun _ => ())) ∧
    (∀ task, Verdict past task.id (s.perform (.update task)).2) ∧
    (∀ raw, Verdict past raw (s.perform (.delete raw)).2) ∧
    (∀ raw date, (trim date).utf8ByteSize = 8 →
      Verdict past raw (s.perform (.setDate raw date)).2) ∧
    (∀ raw date, (trim date).utf8ByteSize ≠ 8 →
      (s.perform (.setDate raw date)).2 = Except.error StoreError.badDate) ∧
    (∀ c, Exchange.Fails ⟨c, (s.perform c).2⟩ → (s.perform c).1 = s) ∧
    (∀ (c : Call) (named raw : String) (i j : Nat), c.id? = some named → NamesId named j →
      NamesId raw i → i ≠ j → (s.perform c).1.get raw = s.get raw) := by
  have hrecalls := h.recalls
  have hkeyed := hrecalls.keyed
  refine ⟨hrecalls.ascending, hrecalls.exists_get_iff, ?_, hrecalls.verdict_get, ?_, ?_, ?_, ?_,
    ?_, ?_⟩
  · intro raw i task hid hget
    exact hrecalls.of_get hid hget
  · intro task
    exact hrecalls.verdict_settle (hkeyed.changes_update task)
  · intro raw
    exact hrecalls.verdict_settle hkeyed.changes_delete
  · intro raw date hsize
    exact hrecalls.verdict_settle (hkeyed.changes_setDate hsize)
  · intro raw date hsize
    rw [perform, setDate_eq_badDate hsize]
    rfl
  · intro c hfails
    exact (hkeyed.outcome c).eq_of_fails hfails
  · intro c named raw i j hcall hj hi hne
    exact hrecalls.get_eq_of_ne hcall hj hi hne

/-- Of two tasks the second is deleted, and the first is moved under another spelling of its id. -/
theorem answers_follow_past_spelled : ∃ (s : Store) (past : List Exchange) (task : Task),
    s.HasPast past ∧ past.map (·.call.id?) = [some "2", some "+01", none, none] ∧
    s.get " 001" = .ok task ∧ task = ⟨"1", "20240301", "rent", "", ""⟩ ∧
    Held 1 past ∧ ¬ Held 2 past ∧ Latest (Exchange.Dates 1) past "20240301" ∧
    Verdict past "2" (.error .notFound) := by
  let rent : Task := ⟨"", "20240209", "rent", "", ""⟩
  let s : Store := (((((opened none).perform (.add rent)).1.perform (.add rent)).1.perform
    (.setDate "+01" " 20240301 ")).1.perform (.delete "2")).1
  have h : s.HasPast _ := ((((HasPast.opened.perform (.add rent)).perform (.add rent)).perform
    (.setDate "+01" " 20240301 ")).perform (.delete "2")).reopened
  obtain ⟨-, hsucceeds, hfields, hverdict, -⟩ := answers_follow_past h
  have hone : NamesId " 001" 1 := readId_eq_ok_iff.mp (by decide +kernel)
  have htwo : NamesId "2" 2 := readId_eq_ok_iff.mp (by decide +kernel)
  have hget : s.get " 001" = .ok ⟨"1", "20240301", "rent", "", ""⟩ := by decide +kernel
  have hnone : s.get "2" = .error .notFound := by decide +kernel
  obtain ⟨i, hi, hheld⟩ := (hsucceeds " 001").mp ⟨_, hget⟩
  obtain rfl := hi.unique hone
  have hverdict := hverdict "2"
  rw [hnone] at hverdict
  refine ⟨_, _, _, h, rfl, hget, rfl, hheld, ?_, (hfields " 001" 1 _ hone hget).2.1, hverdict⟩
  intro hheld
  obtain ⟨task, htask⟩ := (hsucceeds "2").mpr ⟨2, htwo, hheld⟩
  rw [hnone] at htask
  cases htask

end Store
end Agenda
