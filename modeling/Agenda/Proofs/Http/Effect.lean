import Agenda.Proofs.Http.Request
import Agenda.Proofs.Store.WellKept

/-!
# What a request does to the store

In a store of well-kept rows under ascending ids a request leaves everything as it is, or it adds
one row, or replaces one row, or removes one. Which row this is and what takes its place is said by
what the request holds and by the row itself.
-/

namespace Agenda

open Text

namespace Service

variable {settings : Settings} {now : Instant} {request : Request} {s s' : Store} {id raw : String}
  {n : Nat} {row : Row} {result : Option Row}

/-- The query of the request names the id. -/
def QueryNames (request : Request) (n : Nat) : Prop :=
  ∃ raw, queryId? request = some raw ∧ NamesId raw n

/-- The request asks for a new task, which is kept in this form. -/
structure Adds (settings : Settings) (now : Instant) (request : Request) (kept : Task) : Prop where
  passes : Passes settings now request "POST" "/api/task"
  keeps : ∃ task, bodyTask? request = some task ∧ task.prepare settings.today = .ok kept

/-- The request asks for a change of the task under the id, which is kept in this form. -/
structure Edits (settings : Settings) (now : Instant) (request : Request) (n : Nat) (kept : Task) :
    Prop where
  passes : Passes settings now request "PUT" "/api/task"
  keeps : ∃ task, bodyTask? request = some task ∧ NamesId task.id n ∧
    task.prepare settings.today = .ok kept

/-- The request asks for the removal of the task under the id. -/
structure Deletes (settings : Settings) (now : Instant) (request : Request) (n : Nat) : Prop where
  passes : Passes settings now request "DELETE" "/api/task"
  names : QueryNames request n

/-- The request does the task under the id. -/
structure Completes (settings : Settings) (now : Instant) (request : Request) (n : Nat) : Prop where
  passes : Passes settings now request "POST" "/api/task/done"
  names : QueryNames request n

theorem run_lookUp_of_row? (hid : NamesId id n) (hrow : s.row? n = some row) :
    (lookUp id).run s = (finish id row.toTask.completion).run s := by
  rw [run_lookUp, Store.get_eq_ok (readId_eq_ok_iff.mpr hid) hrow]

theorem run_lookUp_of_none (hid : NamesId id n) (hrow : s.row? n = none) :
    (lookUp id).run s = (s, .ofStoreError .notFound) := by
  simp only [run_lookUp, Store.get, readId_eq_ok_iff.mpr hid, hrow]

theorem trim_text_size {d : Day} (h : 0 ≤ d.year ∧ d.year ≤ 9999) :
    (trim d.text).utf8ByteSize = 8 := by
  rw [Day.trim_text]
  exact Day.utf8ByteSize_text_eq_iff.mpr h

theorem run_finish_tooFar {next : Day} (h : ¬ (0 ≤ next.year ∧ next.year ≤ 9999)) :
    (finish id (.ok (.reschedule next.text))).run s = (s, .ofStoreError .badDate) := by
  rw [run_finish_reschedule_eq, Store.setDate_eq_badDate]
  rwa [Day.trim_text, Ne, Day.utf8ByteSize_text_eq_iff]

/-- What has become of a looked-up row is carried out on the row that is there by then. -/
theorem run_finish_replaces {x : Row} (hs : s.Keyed) (hkept : row.WellKept)
    (hbecomes : row.Becomes result) (hid : NamesId id n) (hx : s.row? n = some x) :
    ∃ s', (finish id row.toTask.completion).run s = (s', .done) ∧
      s.Replaces x (result.map fun moved => { x with date := moved.date }) s' := by
  rcases hkept.completion_of_becomes hbecomes with ⟨rfl, hcompletion⟩ |
    ⟨next, rfl, hcompletion, hyear⟩
  · obtain ⟨s', hs', hreplaces⟩ := hs.changes_delete.exists_eq_ok hid hx
    rw [hcompletion, run_finish_delete_eq, hs']
    exact ⟨s', rfl, hreplaces⟩
  · obtain ⟨s', hs', hreplaces⟩ :=
      (hs.changes_setDate (trim_text_size hyear)).exists_eq_ok hid hx
    rw [hcompletion, run_finish_reschedule_eq, hs']
    rw [Day.trim_text] at hreplaces
    exact ⟨s', rfl, hreplaces⟩

theorem run_finish_notFound (hs : s.Keyed) (hkept : row.WellKept) (hbecomes : row.Becomes result)
    (hid : NamesId id n) (hx : s.row? n = none) :
    (finish id row.toTask.completion).run s = (s, .ofStoreError .notFound) := by
  rcases hkept.completion_of_becomes hbecomes with ⟨-, hcompletion⟩ |
    ⟨next, -, hcompletion, hyear⟩
  · rw [hcompletion, run_finish_delete_eq, hs.changes_delete.eq_notFound hid hx]
  · rw [hcompletion, run_finish_reschedule_eq,
      (hs.changes_setDate (trim_text_size hyear)).eq_notFound hid hx]

theorem run_finish_refused (hkept : row.WellKept) (hnone : ∀ result, ¬ row.Becomes result)
    (id : String) : ∃ response : Response, response.status = 400 ∧
      ∀ s, (finish id row.toTask.completion).run s = (s, response) := by
  have hturns := hkept.turnsOut
  generalize row.toTask.completion = completion at hturns ⊢
  cases hturns with
  | removed h => exact absurd h (hnone _)
  | moved h => exact absurd h (hnone _)
  | failed => exact ⟨_, rfl, fun s => rfl⟩
  | tooFar _ hyear => exact ⟨.ofStoreError .badDate, rfl, fun s => run_finish_tooFar hyear⟩

/-- What a request can do to a store, and how it is then answered. -/
inductive Effect (settings : Settings) (now : Instant) (request : Request) (s : Store) :
    Store → Response → Prop
  | unchanged {response : Response} (h : IsChange request → response.status ≠ 200) :
    Effect settings now request s s response
  | adds {kept : Task} (h : Adds settings now request kept) :
    Effect settings now request s (s.add kept).1 (added (s.lastId + 1))
  | edits {row : Row} {kept : Task} {s' : Store} (h : Edits settings now request row.id kept)
    (hreplaces : s.Replaces row (some (Row.ofTask row.id kept)) s') :
    Effect settings now request s s' .done
  | deletes {row : Row} {s' : Store} (h : Deletes settings now request row.id)
    (hreplaces : s.Replaces row none s') : Effect settings now request s s' .done
  | completes {row : Row} {result : Option Row} {s' : Store}
    (h : Completes settings now request row.id) (hbecomes : row.Becomes result)
    (hreplaces : s.Replaces row result s') : Effect settings now request s s' .done

theorem effect_of_status {response : Response} (h : response.status = 400) :
    Effect settings now request s s response :=
  .unchanged fun _ => by omega

theorem effect_ofOutcome {f : Row → Option Row} {change : Except StoreError Store}
    (h : s.Changes id f change)
    (hreplaces : ∀ {row s'}, NamesId id row.id → s.Replaces row (f row) s' →
      Effect settings now request s s' .done) :
    Effect settings now request s ((ofOutcome (s.settle change).2).run (s.settle change).1).1
      ((ofOutcome (s.settle change).2).run (s.settle change).1).2 := by
  rw [run_ofOutcome]
  cases h with
  | badId => exact effect_of_status rfl
  | notFound => exact effect_of_status rfl
  | replaces hid hrow h =>
    obtain rfl := Store.id_of_row? hrow
    exact hreplaces hid h

theorem effect_lookUp (hs : s.WellKept)
    (hpasses : Passes settings now request "POST" "/api/task/done")
    (hraw : queryId? request = some raw) :
    Effect settings now request s ((lookUp (trim raw)).run s).1 ((lookUp (trim raw)).run s).2 := by
  rw [run_lookUp]
  rcases s.get_cases (trim raw) with ⟨row, hid, hrow, hget⟩ | ⟨n, -, -, hget⟩ | ⟨-, hget⟩
  · rw [hget]
    dsimp only
    have hkept := hs.rows row (Store.mem_of_row? hrow)
    by_cases hbecomes : ∃ result, row.Becomes result
    · obtain ⟨result, hbecomes⟩ := hbecomes
      obtain ⟨s', hrun, hreplaces⟩ := run_finish_replaces hs.keyed hkept hbecomes hid hrow
      rw [hrun]
      rw [hbecomes.map_date] at hreplaces
      exact .completes ⟨hpasses, raw, hraw, namesId_trim.mp hid⟩ hbecomes hreplaces
    · rw [not_exists] at hbecomes
      obtain ⟨response, hstatus, hrun⟩ := run_finish_refused hkept hbecomes (trim raw)
      rw [hrun]
      exact effect_of_status hstatus
  · rw [hget]
    exact effect_of_status rfl
  · rw [hget]
    exact effect_of_status rfl

/-- Says all that a request can do. -/
theorem effect_handle (hs : s.WellKept) (settings : Settings) (now : Instant) (request : Request) :
    Effect settings now request s ((handle settings now request).run s).1
      ((handle settings now request).run s).2 := by
  have hplan := plan_handle settings now request
  generalize handle settings now request = script at hplan ⊢
  cases hplan with
  | answer h => exact .unchanged h
  | @read c next hreads hends hmethod =>
    obtain ⟨response, hresponse⟩ := hends (s.perform c).2
    rw [Script.run, hresponse, Script.run, hreads]
    exact .unchanged fun h => absurd h (not_isChange_of_reading hmethod)
  | add hpasses hbody hprepared => exact .adds ⟨hpasses, _, hbody, hprepared⟩
  | @edit task kept hpasses hbody hprepared =>
    rw [Task.prepare_withId task] at hprepared
    cases hkeeps : task.prepare settings.today with
    | error e =>
      rw [hkeeps] at hprepared
      cases hprepared
    | ok kept' =>
      rw [hkeeps] at hprepared
      cases hprepared
      simp only [Script.run, Store.perform]
      refine effect_ofOutcome (hs.keyed.changes_update _) fun hid hreplaces => ?_
      exact .edits ⟨hpasses, task, hbody, namesId_trim.mp hid, hkeeps⟩ hreplaces
  | @delete raw hpasses hraw =>
    have hchanges : s.Changes (trim raw) (fun _ => none) (s.delete (trim raw)) :=
      hs.keyed.changes_delete
    simp only [Script.run, Store.perform]
    refine effect_ofOutcome hchanges fun hid hreplaces => ?_
    exact .deletes ⟨hpasses, raw, hraw, namesId_trim.mp hid⟩ hreplaces
  | complete hpasses hraw => exact effect_lookUp hs hpasses hraw

theorem effect_of_run {response : Response} (hs : s.WellKept)
    (hrun : (handle settings now request).run s = (s', response)) :
    Effect settings now request s s' response := by
  have heffect := effect_handle hs settings now request
  rwa [hrun] at heffect

namespace Effect

variable {response : Response}

theorem of_post_task (h : Effect settings now request s s' response)
    (hok : response.status = 200) (hmethod : request.method = "POST")
    (hpath : request.path = "/api/task") :
    ∃ kept, Adds settings now request kept ∧ s' = (s.add kept).1 ∧
      response = added (s.lastId + 1) := by
  cases h with
  | unchanged hfailed => exact absurd hok (hfailed (.inl ⟨hpath, .inl hmethod⟩))
  | adds hadds => exact ⟨_, hadds, rfl, rfl⟩
  | edits hedits => exact absurd (hedits.passes.method_eq.symm.trans hmethod) (by decide)
  | deletes hdeletes => exact absurd (hdeletes.passes.method_eq.symm.trans hmethod) (by decide)
  | completes hcompletes => exact absurd (hcompletes.passes.path_eq.symm.trans hpath) (by decide)

theorem of_put_task (h : Effect settings now request s s' response)
    (hok : response.status = 200) (hmethod : request.method = "PUT")
    (hpath : request.path = "/api/task") :
    ∃ row kept, Edits settings now request row.id kept ∧
      s.Replaces row (some (Row.ofTask row.id kept)) s' := by
  cases h with
  | unchanged hfailed => exact absurd hok (hfailed (.inl ⟨hpath, .inr (.inl hmethod)⟩))
  | adds hadds => exact absurd (hadds.passes.method_eq.symm.trans hmethod) (by decide)
  | edits hedits hreplaces => exact ⟨_, _, hedits, hreplaces⟩
  | deletes hdeletes => exact absurd (hdeletes.passes.method_eq.symm.trans hmethod) (by decide)
  | completes hcompletes => exact absurd (hcompletes.passes.path_eq.symm.trans hpath) (by decide)

theorem of_delete_task (h : Effect settings now request s s' response)
    (hok : response.status = 200) (hmethod : request.method = "DELETE")
    (hpath : request.path = "/api/task") :
    ∃ row, Deletes settings now request row.id ∧ s.Replaces row none s' := by
  cases h with
  | unchanged hfailed => exact absurd hok (hfailed (.inl ⟨hpath, .inr (.inr hmethod)⟩))
  | adds hadds => exact absurd (hadds.passes.method_eq.symm.trans hmethod) (by decide)
  | edits hedits => exact absurd (hedits.passes.method_eq.symm.trans hmethod) (by decide)
  | deletes hdeletes hreplaces => exact ⟨_, hdeletes, hreplaces⟩
  | completes hcompletes => exact absurd (hcompletes.passes.path_eq.symm.trans hpath) (by decide)

theorem of_post_taskDone (h : Effect settings now request s s' response)
    (hok : response.status = 200) (hmethod : request.method = "POST")
    (hpath : request.path = "/api/task/done") :
    ∃ row result, Completes settings now request row.id ∧ row.Becomes result ∧
      s.Replaces row result s' := by
  cases h with
  | unchanged hfailed => exact absurd hok (hfailed (.inr ⟨hpath, hmethod⟩))
  | adds hadds => exact absurd (hadds.passes.path_eq.symm.trans hpath) (by decide)
  | edits hedits => exact absurd (hedits.passes.path_eq.symm.trans hpath) (by decide)
  | deletes hdeletes => exact absurd (hdeletes.passes.path_eq.symm.trans hpath) (by decide)
  | completes hcompletes hbecomes hreplaces => exact ⟨_, _, hcompletes, hbecomes, hreplaces⟩

/-- What becomes of a single row: it stays, or it goes, or it is edited or moved. -/
theorem row?_cases (hs : s.Keyed) (h : Effect settings now request s s' response)
    (hrow : s.row? row.id = some row) :
    s'.row? row.id = some row ∨ s'.row? row.id = none ∨
      (∃ kept, Edits settings now request row.id kept ∧
        s.Replaces row (some (Row.ofTask row.id kept)) s' ∧ response = .done) ∨
      ∃ moved, Completes settings now request row.id ∧ row.Becomes (some moved) ∧
        s.Replaces row (some moved) s' ∧ response = .done := by
  cases h with
  | unchanged => exact .inl hrow
  | adds => exact .inl (Store.row?_add hrow _)
  | edits hedits hreplaces =>
    rcases hs.row?_cases_of_replaces hreplaces (by rintro x ⟨⟩; rfl) hrow with h | ⟨rfl, -⟩
    · exact .inl h
    · exact .inr (.inr (.inl ⟨_, hedits, hreplaces, rfl⟩))
  | deletes hdeletes hreplaces =>
    rcases hs.row?_cases_of_replaces hreplaces (by simp) hrow with h | ⟨rfl, h⟩
    · exact .inl h
    · exact .inr (.inl h)
  | @completes x result _ hcompletes hbecomes hreplaces =>
    rcases hs.row?_cases_of_replaces hreplaces hbecomes.id_eq hrow with h | ⟨rfl, h⟩
    · exact .inl h
    · cases result with
      | none => exact .inr (.inl h)
      | some moved => exact .inr (.inr (.inr ⟨moved, hcompletes, hbecomes, hreplaces, rfl⟩))

end Effect

end Service
end Agenda
