import Agenda.Proofs.Http.Gate
import Agenda.Proofs.Store.Listing

/-!
# The answer that lists tasks

A request for tasks is answered with the first tasks that match its query. Whatever limit it asks
for, these are a hundred at most.
-/

namespace Agenda

open Text

theorem Query.limit_le (raw : Option String) : limit raw ≤ maxLimit := by
  have hdefault : defaultLimit ≤ maxLimit := by decide
  unfold limit
  split
  · exact hdefault
  · split
    · rename_i hrange
      exact hrange.2
    · exact hdefault

namespace Service

variable {settings : Settings} {now : Instant} {request : Request} {s : Store}

def listed (tasks : List Task) : Response :=
  .json 200 (.object [("tasks", .array (tasks.map Task.toSortedJson))])

theorem status_ofStoreError_ne (e : StoreError) : (Response.ofStoreError e).status ≠ 200 := by
  cases e <;> simp [Response.ofStoreError, Response.badRequest, Response.failure, Response.json]

/-- The request gives a search text that stands for the query, and a limit that counts as this
one. -/
def Asks (request : Request) (query : Query) (limit : Nat) : Prop :=
  ∃ fields, Form.read ["search", "limit"] request.query = .ok fields ∧
    query = Query.parse (textOf fields "search") ∧ limit = Query.limit (textOf? fields "limit")

theorem Asks.limit_le {query : Query} {limit : Nat} (h : Asks request query limit) :
    limit ≤ Query.maxLimit := by
  obtain ⟨fields, -, -, rfl⟩ := h
  exact Query.limit_le _

theorem run_listTasks_cases (request : Request) (s : Store) :
    (∃ response, response.status ≠ 200 ∧ (listTasks request).run s = (s, response)) ∨
      ∃ query limit tasks, Asks request query limit ∧ s.list query limit = .ok tasks ∧
        (listTasks request).run s = (s, listed tasks) := by
  unfold listTasks withQuery
  cases hread : Form.read ["search", "limit"] request.query with
  | error name => exact .inl ⟨duplicateField name, by simp [duplicateField, Response.text], rfl⟩
  | ok fields =>
    have hasks : Asks request _ _ := ⟨fields, hread, rfl, rfl⟩
    simp only [Script.run, Store.perform]
    generalize Query.parse (textOf fields "search") = query at hasks
    generalize Query.limit (textOf? fields "limit") = limit at hasks
    cases hlist : s.list query limit with
    | error e => exact .inl ⟨.ofStoreError e, status_ofStoreError_ne e, rfl⟩
    | ok tasks => exact .inr ⟨query, limit, tasks, hasks, hlist, rfl⟩

theorem exists_list_of_run_handle (hmethod : request.method = "GET")
    (hpath : request.path = "/api/tasks")
    (hstatus : ((handle settings now request).run s).2.status = 200) :
    ∃ query limit tasks, Asks request query limit ∧ s.list query limit = .ok tasks ∧
      (handle settings now request).run s = (s, listed tasks) := by
  have hroute : Route.ofPath? request.path = some .tasks := by
    rw [hpath]
    exact Route.ofPath?_path .tasks
  cases hauthorized : isAuthorized settings now request with
  | false =>
    rw [handle_gated hroute rfl hauthorized] at hstatus
    cases hstatus
  | true =>
    have hhandle : handle settings now request = listTasks request := by
      rw [handle_eq_respond (by simp [hmethod]) hroute hauthorized,
        respond_of_reading .tasks (.inl hmethod)]
    rw [hhandle] at hstatus ⊢
    rcases run_listTasks_cases request s with ⟨response, hrefused, hrun⟩ | hlisted
    · rw [hrun] at hstatus
      exact absurd hstatus hrefused
    · exact hlisted

/-- The rows that match a query have one list without repetitions in which each row comes before the
next one, by the bytes of its date and then by its id. The answer is as much of its beginning as the
limit allows, with each task as it is looked up. So a smaller limit gives a beginning of what a
greater one gives, a limit of more than 64 bits is none, and the rows of a date are just those whose
date is this text. A request for tasks is answered with those of its search text, up to its limit
and to a hundred of them at most. -/
theorem list_first_rows :
    (∀ (s : Store) (query : Query), s.Keyed → s.lastId ≤ int64Max → Store.Fits query →
      ∃ rows, s.IsListing query rows ∧ (∀ rows', s.IsListing query rows' → rows' = rows) ∧
        (∀ limit, s.list query limit = .ok ((rows.take limit).map Row.toTask)) ∧
        (∀ limit : Nat, int64Max < limit → s.list query limit = .ok (rows.map Row.toTask)) ∧
        (∀ row ∈ rows, s.get row.toTask.id = .ok row.toTask) ∧
        ∀ date, query = .onDate date → ∀ row, row ∈ rows ↔ row ∈ s.rows ∧ row.date = date) ∧
    (∀ (s : Store) (query : Query) (limit limit' : Nat) (tasks tasks' : List Task),
      limit ≤ limit' → s.list query limit = .ok tasks → s.list query limit' = .ok tasks' →
      tasks <+: tasks') ∧
    ∀ (settings : Settings) (now : Instant) (request : Request) (s : Store),
      request.method = "GET" → request.path = "/api/tasks" →
      ((handle settings now request).run s).2.status = 200 →
      ∃ query limit tasks, Asks request query limit ∧ s.list query limit = .ok tasks ∧
        tasks.length ≤ 100 ∧ (handle settings now request).run s = (s, listed tasks) := by
  refine ⟨?_, ?_, ?_⟩
  · intro s query hs hmax hquery
    have hrows := hs.isListing query
    have hlist := hs.list_eq hmax hquery hrows
    refine ⟨_, hrows, fun rows' h => h.unique hrows, hlist, ?_, ?_, ?_⟩
    · intro limit hlimit
      have hlength := hrows.length_le.trans hs.length_rows_le
      rw [hlist, List.take_of_length_le (by omega)]
    · intro row hrow
      obtain ⟨hmem, -⟩ := (hrows.mem_iff row).mp hrow
      have hle := hs.le_lastId row hmem
      exact Store.get_eq_ok (readId_digits (hs.pos row hmem) (by omega)) (hs.row?_of_mem hmem)
    · rintro date rfl
      exact hrows.mem_iff_of_onDate
  · intro s query limit limit' tasks tasks' hle htasks htasks'
    rw [Store.eq_of_list_eq_ok htasks, Store.eq_of_list_eq_ok htasks']
    exact (List.take_prefix_take_left (by unfold Store.rowLimit; omega)).map Row.toTask
  · intro settings now request s hmethod hpath hstatus
    obtain ⟨query, limit, tasks, hasks, hlist, hrun⟩ :=
      exists_list_of_run_handle hmethod hpath hstatus
    refine ⟨query, limit, tasks, hasks, hlist, ?_, hrun⟩
    have hmax : Query.maxLimit = 100 := rfl
    have hlimit := hasks.limit_le
    have hlength := Store.length_le_of_list hlist
    omega

/-- Of the two tasks of one date, a limit of one gives that with the lower id. A request for the
date with a limit that is too large is answered with both. -/
theorem list_first_rows_leapDay : ∃ (s : Store) (rows : List Row) (request : Request),
    s.Keyed ∧ s.lastId ≤ int64Max ∧ Store.Fits (.onDate "20240229") ∧
    s.rows.map Row.date = ["20240301", "20240229", "20240229"] ∧
    s.IsListing (.onDate "20240229") rows ∧ rows.map Row.id = [2, 3] ∧
    s.list (.onDate "20240229") 1 = .ok [⟨"2", "20240229", "walk", "", ""⟩] ∧
    s.get "2" = .ok ⟨"2", "20240229", "walk", "", ""⟩ ∧
    request.target = "/api/tasks?search=29.02.2024&limit=1000" ∧
    Asks request (.onDate "20240229") 50 ∧
    (handle ⟨none, none, Day.epoch⟩ .epoch request).run s = (s, listed
      [⟨"2", "20240229", "walk", "", ""⟩, ⟨"3", "20240229", "swim", "", ""⟩]) := by
  let rent : Row := ⟨1, "20240301", "rent", "", ""⟩
  let walk : Row := ⟨2, "20240229", "walk", "", ""⟩
  let swim : Row := ⟨3, "20240229", "swim", "", ""⟩
  let s : Store := ⟨[rent, walk, swim], 3⟩
  let request : Request := ⟨"GET", "/api/tasks?search=29.02.2024&limit=1000", none, [], ""⟩
  have hs : s.Keyed := ⟨by decide, by decide, by decide⟩
  have hquery : Store.Fits (.onDate "20240229") := by simp [Store.Fits]
  have hlisting : s.IsListing (.onDate "20240229") [walk, swim] := by
    refine ⟨fun row => ?_, by simp [Row.Precedes, walk, swim]⟩
    constructor
    · intro h
      revert row
      decide
    · rintro ⟨hmem, hmatch⟩
      revert row
      decide
  have hasked : Form.read ["search", "limit"] request.query =
      .ok [("limit", "1000"), ("search", "29.02.2024")] := by
    decide +kernel
  have hparse : Query.parse "29.02.2024" = .onDate "20240229" := by decide +kernel
  have hlimit : Query.limit (some "1000") = 50 := by decide +kernel
  obtain ⟨hstore, -, hservice⟩ := list_first_rows
  obtain ⟨rows, -, hunique, hlist, -, hget, -⟩ := hstore s _ hs (by decide) hquery
  obtain rfl := hunique _ hlisting
  have hwalk := hget walk (by simp)
  have hstatus : ((handle ⟨none, none, Day.epoch⟩ .epoch request).run s).2.status = 200 := by
    decide +kernel
  obtain ⟨query, limit, tasks, hasks, hanswer, -, hrun⟩ :=
    hservice _ _ request s rfl (by decide +kernel) hstatus
  have htask : walk.toTask = ⟨"2", "20240229", "walk", "", ""⟩ := by decide +kernel
  have htask' : swim.toTask = ⟨"3", "20240229", "swim", "", ""⟩ := by decide +kernel
  have hfirst := hlist 1
  rw [List.take_succ_cons, List.take_zero, List.map_singleton, htask] at hfirst
  rw [htask] at hwalk
  obtain ⟨rfl, rfl⟩ : query = .onDate "20240229" ∧ limit = 50 := by
    obtain ⟨fields, hread, rfl, rfl⟩ := hasks
    obtain rfl := Except.ok.inj (hasked.symm.trans hread)
    exact ⟨hparse, hlimit⟩
  rw [hlist] at hanswer
  cases hanswer
  exact ⟨s, [walk, swim], request, hs, by decide, hquery, rfl, hlisting, rfl, hfirst, hwalk, rfl,
    hasks, by simpa [htask, htask'] using hrun⟩

end Service

end Agenda
