import Agenda.Proofs.Http.Serving

/-!
# Two requests at once

The lock of the store is held for one call, so that two requests can take turns. All but one kind
of them make one call, and come before or after any other request. A task that is done is looked up
in one call and removed or moved in another, and what stands between the two calls can go
unnoticed: a completion of the same task, which then moves only once, or an edit of it, to which the
outcome for the older version is applied.
-/

namespace Agenda

open Text

namespace Service

variable {settings : Settings} {now : Instant} {request : Request} {r r' : Arrival}
  {s s' between : Store} {id raw : String} {n : Nat} {row : Row} {result : Option Row}
  {a b response : Response}

theorem Completes.exists_eq_lookUp (h : Completes settings now request n) :
    ∃ id, NamesId id n ∧ handle settings now request = lookUp id := by
  obtain ⟨raw, hraw, hid⟩ := h.names
  exact ⟨trim raw, namesId_trim.mpr hid, handle_complete h.passes hraw hid.trim_ne_empty⟩

theorem Completes.run_handle (hs : s.WellKept) (h : Completes settings now request row.id)
    (hrow : row ∈ s.rows) (hbecomes : row.Becomes result) :
    ∃ s', (handle settings now request).run s = (s', .done) ∧ s.Replaces row result s' := by
  obtain ⟨id, hid, hscript⟩ := h.exists_eq_lookUp
  have hfound := hs.keyed.row?_of_mem hrow
  obtain ⟨s', hrun, hreplaces⟩ :=
    run_finish_replaces hs.keyed (hs.rows row hrow) hbecomes hid hfound
  rw [hbecomes.map_date] at hreplaces
  exact ⟨s', by rw [hscript, run_lookUp_of_row? hid hfound, hrun], hreplaces⟩

theorem Edits.run_handle {kept : Task} (hs : s.WellKept)
    (h : Edits settings now request row.id kept) (hrow : row ∈ s.rows) :
    ∃ s', (handle settings now request).run s = (s', .done) ∧
      s.Replaces row (some (Row.ofTask row.id kept)) s' := by
  obtain ⟨task, hbody, hid, hprepared⟩ := h.keeps
  have hkept : { task with id := trim task.id }.prepare settings.today =
      .ok { kept with id := trim task.id } := by
    rw [Task.prepare_withId task, hprepared]
    rfl
  have hchanges := hs.keyed.changes_update { kept with id := trim task.id }
  obtain ⟨s', hs', hreplaces⟩ :=
    hchanges.exists_eq_ok (namesId_trim.mpr hid) (hs.keyed.row?_of_mem hrow)
  refine ⟨s', ?_, hreplaces⟩
  rw [handle_edit h.passes hbody hid.trim_ne_empty hkept]
  simp only [Script.run, Store.perform]
  rw [run_ofOutcome, hs']

/-- Both requests do the same task, which moves once. -/
def MovesOnce (r r' : Arrival) (s s' : Store) (a b : Response) : Prop :=
  ∃ row moved, Completes r.settings r.now r.request row.id ∧
    Completes r'.settings r'.now r'.request row.id ∧ row.Becomes (some moved) ∧
    s.Replaces row (some moved) s' ∧ a = .done ∧ b = .done

/-- The first request does a task that the second one edits. The edited row is treated as the one
before it: it is removed, or its date gives way to the next date of the one before. -/
def LosesEdit (r r' : Arrival) (s s' : Store) (a b : Response) : Prop :=
  ∃ row kept result, Completes r.settings r.now r.request row.id ∧
    Edits r'.settings r'.now r'.request row.id kept ∧ row.Becomes result ∧
    s.Replaces row
      (result.map fun moved => { Row.ofTask row.id kept with date := moved.date }) s' ∧
    a = .done ∧ b = .done

theorem encloses_lookUp_iff {q : Script Response} :
    (lookUp id).Encloses q s s' a b ↔ ∃ between, q.run s = (between, b) ∧
      (afterLookUp id (s.get id)).run between = (s', a) := by
  constructor
  · rintro ⟨c, next, between, hscript, hq, hrest⟩
    cases hscript
    exact ⟨between, hq, hrest⟩
  · rintro ⟨between, hq, hrest⟩
    exact ⟨.get id, afterLookUp id, between, rfl, hq, hrest⟩

/-- The row is looked up, and then another request runs before the completion goes on. -/
theorem encloses_found_cases (hs : s.WellKept) (hrow : s.row? row.id = some row)
    (hid : NamesId id row.id) (hcompletes : Completes r.settings r.now r.request row.id)
    (hrun : r'.script.run s = (between, b))
    (hrest : (finish id row.toTask.completion).run between = (s', a)) :
    (lookUp id).InOrder r'.script s s' a b ∨ r'.script.InOrder (lookUp id) s s' b a ∨
      MovesOnce r r' s s' a b ∨ LosesEdit r r' s s' a b := by
  have hkept := hs.rows row (Store.mem_of_row? hrow)
  have hbetween : between.WellKept := wellKept_of_run hs hrun
  by_cases hbecomes : ∃ result, row.Becomes result
  · obtain ⟨result, hbecomes⟩ := hbecomes
    have heffect : Effect r'.settings r'.now r'.request s between b := effect_of_run hs hrun
    rcases heffect.row?_cases hs.keyed hrow with
      hsame | hgone | ⟨kept, hedits, hreplaces, rfl⟩ | ⟨moved, hcompletes', hmoved, hreplaces, rfl⟩
    · -- the completion would have found the same row later
      exact .inr (.inl ⟨between, hrun, (run_lookUp_of_row? hid hsame).trans hrest⟩)
    · rw [run_finish_notFound hbetween.keyed hkept hbecomes hid hgone] at hrest
      exact .inr (.inl ⟨between, hrun, (run_lookUp_of_none hid hgone).trans hrest⟩)
    · have hedited : between.row? row.id = some (Row.ofTask row.id kept) := by
        rw [hs.keyed.row?_of_replaces hreplaces (by rintro x ⟨⟩; rfl), if_pos rfl]
      obtain ⟨s'', hrun'', hreplaces'⟩ :=
        run_finish_replaces hbetween.keyed hkept hbecomes hid hedited
      cases hrest.symm.trans hrun''
      refine .inr (.inr (.inr ⟨row, kept, result, hcompletes, hedits, hbecomes, ?_, rfl, rfl⟩))
      exact hreplaces.trans hbetween.keyed hreplaces'
    · obtain rfl := hbecomes.unique hmoved
      have hfound : between.row? row.id = some moved := by
        rw [hs.keyed.row?_of_replaces hreplaces hmoved.id_eq, if_pos rfl]
      obtain ⟨s'', hrun'', hreplaces'⟩ :=
        run_finish_replaces hbetween.keyed hkept hmoved hid hfound
      cases hrest.symm.trans hrun''
      refine .inr (.inr (.inl ⟨row, moved, hcompletes, hcompletes', hmoved, ?_, rfl, rfl⟩))
      exact hreplaces.trans hbetween.keyed hreplaces'
  · rw [not_exists] at hbecomes
    obtain ⟨response, -, hrefused⟩ := run_finish_refused hkept hbecomes id
    cases hrest.symm.trans (hrefused between)
    exact .inl ⟨s, (run_lookUp_of_row? hid hrow).trans (hrefused s), hrun⟩

/-- What a completion comes to when another request runs between its two calls. -/
theorem encloses_cases (hs : s.WellKept) (h : r.script.Encloses r'.script s s' a b) :
    r.script.InOrder r'.script s s' a b ∨ r'.script.InOrder r.script s s' b a ∨
      MovesOnce r r' s s' a b ∨ LosesEdit r r' s s' a b := by
  rcases (plan_handle r.settings r.now r.request).isSingle_or_eq_lookUp with
    hsingle | ⟨raw, hpasses, hraw, hscript⟩
  · exact .inl (h.inOrder hsingle)
  · have hlookUp : r.script = lookUp (trim raw) := hscript
    rw [hlookUp, encloses_lookUp_iff] at h
    obtain ⟨between, hrun, hrest⟩ := h
    rw [hlookUp]
    have hrefused : ∀ e, s.get (trim raw) = .error e →
        (lookUp (trim raw)).InOrder r'.script s s' a b := by
      intro e hget
      rw [hget] at hrest
      cases hrest
      exact ⟨s, by rw [run_lookUp, hget], hrun⟩
    rcases s.get_cases (trim raw) with ⟨row, hid, hrow, hget⟩ | ⟨n, -, -, hget⟩ | ⟨-, hget⟩
    · rw [hget, afterLookUp] at hrest
      have hcompletes : Completes r.settings r.now r.request row.id :=
        ⟨hpasses, raw, hraw, namesId_trim.mp hid⟩
      exact encloses_found_cases hs hrow hid hcompletes hrun hrest
    · exact .inl (hrefused _ hget)
    · exact .inl (hrefused _ hget)

theorem encloses_of_replaces {x : Row} (hs : s.WellKept)
    (hcompletes : Completes r.settings r.now r.request row.id) (hrow : row ∈ s.rows)
    (hbecomes : row.Becomes result) (hx : x.id = row.id)
    (hrun : r'.script.run s = (between, b)) (hreplaces : s.Replaces row (some x) between)
    (hs' : s.Replaces row (result.map fun moved => { x with date := moved.date }) s') :
    r.script.Encloses r'.script s s' .done b := by
  obtain ⟨id, hid, hscript⟩ := hcompletes.exists_eq_lookUp
  have hlookUp : r.script = lookUp id := hscript
  have hfound := hs.keyed.row?_of_mem hrow
  have hbetween : between.WellKept := wellKept_of_run hs hrun
  have hreplaced : between.row? row.id = some x := by
    rw [hs.keyed.row?_of_replaces hreplaces (by rintro y ⟨⟩; exact hx), if_pos rfl]
  obtain ⟨s'', hrun', hreplaces'⟩ :=
    run_finish_replaces hbetween.keyed (hs.rows row hrow) hbecomes hid hreplaced
  obtain rfl := hs.keyed.replaces_unique hs' (hreplaces.trans hbetween.keyed hreplaces')
  rw [hlookUp, encloses_lookUp_iff]
  refine ⟨between, hrun, ?_⟩
  rw [Store.get_eq_ok (readId_eq_ok_iff.mpr hid) hfound]
  exact hrun'

theorem MovesOnce.encloses (hs : s.WellKept) (h : MovesOnce r r' s s' a b) :
    r.script.Encloses r'.script s s' a b := by
  obtain ⟨row, moved, hcompletes, hcompletes', hbecomes, hreplaces, rfl, rfl⟩ := h
  obtain ⟨between, hrun, hbetween⟩ := hcompletes'.run_handle hs hreplaces.mem hbecomes
  have hid := hbecomes.id_eq moved rfl
  exact encloses_of_replaces hs hcompletes hreplaces.mem hbecomes hid hrun hbetween hreplaces

theorem LosesEdit.encloses (hs : s.WellKept) (h : LosesEdit r r' s s' a b) :
    r.script.Encloses r'.script s s' a b := by
  obtain ⟨row, kept, result, hcompletes, hedits, hbecomes, hreplaces, rfl, rfl⟩ := h
  obtain ⟨between, hrun, hbetween⟩ := hedits.run_handle hs hreplaces.mem
  have hid : (Row.ofTask row.id kept).id = row.id := rfl
  exact encloses_of_replaces hs hcompletes hreplaces.mem hbecomes hid hrun hbetween hreplaces

theorem MovesOnce.symm (h : MovesOnce r r' s s' a b) : MovesOnce r' r s s' b a := by
  obtain ⟨row, moved, hcompletes, hcompletes', hbecomes, hreplaces, ha, hb⟩ := h
  exact ⟨row, moved, hcompletes', hcompletes, hbecomes, hreplaces, hb, ha⟩

/-- Says all that two requests can come to when they run at once. -/
theorem interleaves_script_iff (hs : s.WellKept) :
    r.script.Interleaves r'.script s s' a b ↔
      r.script.InOrder r'.script s s' a b ∨ r'.script.InOrder r.script s s' b a ∨
        MovesOnce r r' s s' a b ∨ LosesEdit r r' s s' a b ∨ LosesEdit r' r s s' b a := by
  have hshort (r : Arrival) : r.script.IsShort := isShort_handle r.settings r.now r.request
  rw [Script.Interleaves.iff_of_isShort (hshort r) (hshort r')]
  constructor
  · rintro (h | h | h | h)
    · exact .inl h
    · exact .inr (.inl h)
    · rcases encloses_cases hs h with h | h | h | h
      · exact .inl h
      · exact .inr (.inl h)
      · exact .inr (.inr (.inl h))
      · exact .inr (.inr (.inr (.inl h)))
    · rcases encloses_cases hs h with h | h | h | h
      · exact .inr (.inl h)
      · exact .inl h
      · exact .inr (.inr (.inl h.symm))
      · exact .inr (.inr (.inr (.inr h)))
  · rintro (h | h | h | h | h)
    · exact .inl h
    · exact .inr (.inl h)
    · exact .inr (.inr (.inl (h.encloses hs)))
    · exact .inr (.inr (.inl (h.encloses hs)))
    · exact .inr (.inr (.inr (h.encloses hs)))

theorem Completes.unique {m : Nat} (hm : Completes settings now request m)
    (hn : Completes settings now request n) : m = n := by
  obtain ⟨raw, hraw, hm⟩ := hm.names
  obtain ⟨raw', hraw', hn⟩ := hn.names
  obtain rfl := Option.some.inj (hraw.symm.trans hraw')
  exact hm.unique hn

theorem Completes.exists_moved (hs : s.WellKept) (h : Completes settings now request row.id)
    (hrow : row ∈ s.rows) (hrule : row.repeatRule ≠ "")
    (hrun : (handle settings now request).run s = (s', response)) (hok : response.status = 200) :
    ∃ moved, row.Becomes (some moved) ∧ s.Replaces row (some moved) s' := by
  obtain ⟨x, result, hx, hbecomes, hreplaces⟩ :=
    (effect_of_run hs hrun).of_post_taskDone hok h.passes.method_eq h.passes.path_eq
  have hfound := hs.keyed.row?_of_mem hreplaces.mem
  rw [hx.unique h, hs.keyed.row?_of_mem hrow] at hfound
  obtain rfl := Option.some.inj hfound
  cases hbecomes with
  | removed hempty => exact absurd hempty hrule
  | moved hparse hdate hyear hmoves hnext =>
    exact ⟨_, .moved hparse hdate hyear hmoves hnext, hreplaces⟩

/-- The row moves, and then it moves on from its new day. -/
def MovesTwice (row : Row) (s s' : Store) : Prop :=
  ∃ once twice, row.Becomes (some once) ∧ once.Becomes (some twice) ∧
    s.Replaces row (some twice) s'

theorem movesTwice_of_inOrder (hs : s.WellKept) (hrow : row ∈ s.rows) (hrule : row.repeatRule ≠ "")
    (hr : Completes r.settings r.now r.request row.id)
    (hr' : Completes r'.settings r'.now r'.request row.id)
    (h : r.script.InOrder r'.script s s' a b) (ha : a.status = 200) (hb : b.status = 200) :
    MovesTwice row s s' := by
  obtain ⟨between, hrun, hrun'⟩ := h
  obtain ⟨once, honce, hreplaces⟩ := hr.exists_moved hs hrow hrule hrun ha
  have hbetween : between.WellKept := wellKept_of_run hs hrun
  rw [← honce.id_eq once rfl] at hr'
  rw [← honce.repeatRule_eq once rfl] at hrule
  obtain ⟨twice, htwice, hreplaces'⟩ :=
    hr'.exists_moved hbetween (hreplaces.mem_result once rfl) hrule hrun' hb
  exact ⟨once, twice, honce, htwice, hreplaces.trans hbetween.keyed hreplaces'⟩

theorem MovesOnce.exists_moved (hs : s.WellKept) (hrow : row ∈ s.rows)
    (hr : Completes r.settings r.now r.request row.id) (h : MovesOnce r r' s s' a b) :
    ∃ once, row.Becomes (some once) ∧ s.Replaces row (some once) s' := by
  obtain ⟨x, moved, hx, -, hbecomes, hreplaces, -, -⟩ := h
  have hfound := hs.keyed.row?_of_mem hreplaces.mem
  rw [hx.unique hr, hs.keyed.row?_of_mem hrow] at hfound
  obtain rfl := Option.some.inj hfound
  exact ⟨moved, hbecomes, hreplaces⟩

theorem moves_of_interleaves (hs : s.WellKept) (hrow : row ∈ s.rows) (hrule : row.repeatRule ≠ "")
    (hr : Completes r.settings r.now r.request row.id)
    (hr' : Completes r'.settings r'.now r'.request row.id)
    (h : r.script.Interleaves r'.script s s' a b) (ha : a.status = 200) (hb : b.status = 200) :
    MovesTwice row s s' ∨ ∃ once, row.Becomes (some once) ∧ s.Replaces row (some once) s' := by
  have hnotPut : ∀ {r : Arrival} {x kept}, Completes r.settings r.now r.request row.id →
      ¬ Edits r.settings r.now r.request x kept := fun hdone hedit =>
    absurd (hdone.passes.method_eq.symm.trans hedit.passes.method_eq) (by decide)
  rcases (interleaves_script_iff hs).mp h with h | h | h | h | h
  · exact .inl (movesTwice_of_inOrder hs hrow hrule hr hr' h ha hb)
  · exact .inl (movesTwice_of_inOrder hs hrow hrule hr' hr h hb ha)
  · exact .inr (h.exists_moved hs hrow hr)
  · obtain ⟨x, kept, result, -, hedits, -⟩ := h
    exact absurd hedits (hnotPut hr')
  · obtain ⟨x, kept, result, -, hedits, -⟩ := h
    exact absurd hedits (hnotPut hr)

/-- In every reachable state, two requests whose calls take turns come to what they come to one
after the other, in one of the two orders, or to one of three other outcomes: two completions of
the same task move it once, or one request does a task that the other one edits and applies to the
edited row what it has found for the row before. So two completions of a task with a rule that both
succeed move it twice, or once. -/
theorem two_requests_outcomes {st : State} (h : st.Reachable) (r r' : Arrival) (s' : Store)
    (a b : Response) :
    (r.script.Interleaves r'.script st.store s' a b ↔
      r.script.InOrder r'.script st.store s' a b ∨ r'.script.InOrder r.script st.store s' b a ∨
        MovesOnce r r' st.store s' a b ∨ LosesEdit r r' st.store s' a b ∨
        LosesEdit r' r st.store s' b a) ∧
    (r.script.Interleaves r'.script st.store s' a b → a.status = 200 → b.status = 200 →
      ∀ row ∈ st.store.rows, row.repeatRule ≠ "" →
        Completes r.settings r.now r.request row.id →
        Completes r'.settings r'.now r'.request row.id →
        MovesTwice row st.store s' ∨
          ∃ once, row.Becomes (some once) ∧ st.store.Replaces row (some once) s') := by
  have hs := h.sound.wellKept
  refine ⟨interleaves_script_iff hs, fun hinterleaves ha hb row hrow hrule hr hr' => ?_⟩
  exact moves_of_interleaves hs hrow hrule hr hr' hinterleaves ha hb

/-- Two completions of a task of every three days, of which one comes before the other. -/
theorem two_requests_outcomes_rent : ∃ (st : State) (done : Arrival), st.Reachable ∧
    st.store = ⟨[⟨1, "20240126", "rent", "", "d 3"⟩], 1⟩ ∧
    done.request.target = "/api/task/done?id=1" ∧
    done.script.Interleaves done.script st.store
      ⟨[⟨1, "20240201", "rent", "", "d 3"⟩], 1⟩ .done .done := by
  let settings : Settings := ⟨none, none, 738911, by decide, by decide⟩
  let add : Arrival := ⟨settings, .epoch, ⟨"POST", "/api/task", some "application/json", [],
    "\x7b\"date\":\"20240126\",\"title\":\"rent\",\"repeat\":\"d 3\"\x7d"⟩⟩
  let done : Arrival := ⟨settings, .epoch, ⟨"POST", "/api/task/done?id=1", none, [], ""⟩⟩
  have hreachable := State.Reachable.initial.serve add
  have hstore : (State.initial.serve add).store =
      ⟨[⟨1, "20240126", "rent", "", "d 3"⟩], 1⟩ := by
    decide +kernel
  refine ⟨_, done, hreachable, hstore, rfl,
    (two_requests_outcomes hreachable done done _ _ _).1.mpr (.inl ?_)⟩
  rw [hstore]
  exact ⟨⟨[⟨1, "20240129", "rent", "", "d 3"⟩], 1⟩, by decide +kernel, by decide +kernel⟩

/-- The requests have passed the gate and, in the reachable state, both succeed and lead to a store
to which neither order of them leads. -/
def OutOfOrder (st : State) (r r' : Arrival) (s' : Store) : Prop :=
  st.Reachable ∧ isAuthorized r.settings r.now r.request = true ∧
    isAuthorized r'.settings r'.now r'.request = true ∧
    r.script.Interleaves r'.script st.store s' .done .done ∧
    (∀ a b, ¬ r.script.InOrder r'.script st.store s' a b) ∧
    ∀ a b, ¬ r'.script.InOrder r.script st.store s' a b

theorem outOfOrder_of_runs {st : State} {s₁ s₂ : Store} (hreachable : st.Reachable)
    (hpasses : Passes r.settings r.now r.request "POST" "/api/task/done")
    (hraw : queryId? r.request = some raw) (hid : trim raw ≠ "")
    (hauthorized : isAuthorized r'.settings r'.now r'.request = true)
    (hrun : r'.script.run st.store = (s₂, .done))
    (hrest : (afterLookUp (trim raw) (st.store.get (trim raw))).run s₂ = (s', .done))
    (hrun' : (r.script.run st.store).1 = s₁) (hne : (r'.script.run s₁).1 ≠ s')
    (hne' : (r.script.run s₂).1 ≠ s') : OutOfOrder st r r' s' := by
  refine ⟨hreachable, hpasses.authorized, hauthorized, ?_, ?_, ?_⟩
  · apply Script.Interleaves.of_encloses
    rw [Arrival.script, handle_complete hpasses hraw hid, encloses_lookUp_iff]
    exact ⟨s₂, hrun, hrest⟩
  · rintro a b ⟨between, h, h'⟩
    rw [h] at hrun'
    subst hrun'
    rw [h'] at hne
    exact hne rfl
  · rintro a b ⟨between, h, h'⟩
    rw [hrun] at h
    cases h
    rw [h'] at hne'
    exact hne' rfl

/-- Two completions at once move a task of every three days once, and an edit between the calls of
a completion loses its date. -/
theorem completions_outOfOrder : ∃ (st : State) (done edit : Arrival),
    st.store = ⟨[⟨1, "20240126", "rent", "", "d 3"⟩], 1⟩ ∧
    done.request.target = "/api/task/done?id=1" ∧
    edit.request.body =
      "\x7b\"id\":\"1\",\"date\":\"20240301\",\"title\":\"flat\",\"repeat\":\"d 3\"\x7d" ∧
    OutOfOrder st done done ⟨[⟨1, "20240129", "rent", "", "d 3"⟩], 1⟩ ∧
    OutOfOrder st done edit ⟨[⟨1, "20240129", "flat", "", "d 3"⟩], 1⟩ := by
  let settings : Settings := ⟨none, none, 738911, by decide, by decide⟩
  let add : Arrival := ⟨settings, .epoch, ⟨"POST", "/api/task", some "application/json", [],
    "\x7b\"date\":\"20240126\",\"title\":\"rent\",\"repeat\":\"d 3\"\x7d"⟩⟩
  let done : Arrival := ⟨settings, .epoch, ⟨"POST", "/api/task/done?id=1", none, [], ""⟩⟩
  let edit : Arrival := ⟨settings, .epoch, ⟨"PUT", "/api/task", some "application/json", [],
    "\x7b\"id\":\"1\",\"date\":\"20240301\",\"title\":\"flat\",\"repeat\":\"d 3\"\x7d"⟩⟩
  have hreachable := State.Reachable.initial.serve add
  have hstore : (State.initial.serve add).store =
      ⟨[⟨1, "20240126", "rent", "", "d 3"⟩], 1⟩ := by
    decide +kernel
  have hpasses : Passes done.settings done.now done.request "POST" "/api/task/done" :=
    ⟨rfl, by decide, rfl⟩
  have hraw : queryId? done.request = some "1" := by decide +kernel
  have hid : trim "1" ≠ "" := by decide
  have hmoved : (done.script.run (State.initial.serve add).store) =
      (⟨[⟨1, "20240129", "rent", "", "d 3"⟩], 1⟩, .done) := by
    rw [hstore]
    decide +kernel
  refine ⟨_, done, edit, hstore, rfl, rfl, ?_, ?_⟩
  · refine outOfOrder_of_runs hreachable hpasses hraw hid rfl hmoved ?_ (congrArg Prod.fst hmoved)
      (by decide +kernel) (by decide +kernel)
    rw [hstore]
    decide +kernel
  · have hedited : (edit.script.run (State.initial.serve add).store) =
        (⟨[⟨1, "20240301", "flat", "", "d 3"⟩], 1⟩, .done) := by
      rw [hstore]
      decide +kernel
    refine outOfOrder_of_runs hreachable hpasses hraw hid rfl hedited ?_ (congrArg Prod.fst hmoved)
      (by decide +kernel) (by decide +kernel)
    rw [hstore]
    decide +kernel

end Service
end Agenda
