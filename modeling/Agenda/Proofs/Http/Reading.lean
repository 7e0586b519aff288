import Agenda.Proofs.Http.Listing
import Agenda.Proofs.Http.Serving
import Agenda.Proofs.Task.Record

/-!
# Tasks that are read from the service

A single task is answered as an object of its texts in the order in which they are declared, and a
list of tasks as an array of objects whose keys are in alphabetical order. Either way what stands
there for a row is read back as just this row.
-/

namespace Agenda

open Text

namespace Service

variable {settings : Settings} {now : Instant} {request : Request} {s : Store} {row : Row}

theorem run_handle_getTask (hpasses : Passes settings now request "GET" "/api/task")
    (hnames : QueryNames request row.id) (hrow : s.row? row.id = some row) :
    (handle settings now request).run s = (s, .json 200 row.toTask.toJson) := by
  obtain ⟨raw, hraw, hid⟩ := hnames
  have hget := Store.get_eq_ok (readId_eq_ok_iff.mpr (namesId_trim.mpr hid)) hrow
  rw [Passes.handle_eq .task hpasses (by decide),
    respond_of_reading .task (.inl hpasses.method_eq)]
  dsimp only
  rw [getTask, withId_eq hraw hid.trim_ne_empty]
  simp only [Script.run, Store.perform, hget]

theorem toList_body_listed (tasks : List Task) :
    (listed tasks).body.toList = "\x7b\"tasks\":[".toList ++
      [','].intercalate (tasks.map fun task => task.toSortedJson.chars) ++ "]\x7d".toList := by
  have hkey : Json.quoted "tasks" = "\"tasks\"".toList := by decide
  have helements := Json.elementChars_eq (tasks.map Task.toSortedJson)
  rw [List.map_map] at helements
  simp only [listed, Response.json, Json.Value.write, String.toList_ofList, Json.Value.chars,
    Json.Value.memberChars, helements, hkey]
  simp [Function.comp_def]

theorem exists_rows_of_list (hs : s.Keyed) {query : Query} {limit : Nat} {tasks : List Task}
    (h : s.list query limit = .ok tasks) :
    ∃ rows, rows ⊆ s.rows ∧ rows.Nodup ∧ tasks = rows.map Row.toTask := by
  have hlisting := hs.isListing query
  refine ⟨_, fun row hrow => ?_, ?_, Store.eq_of_list_eq_ok h⟩
  · exact ((hlisting.mem_iff row).mp (List.mem_of_mem_take hrow)).1
  · exact hlisting.nodup.sublist (List.take_sublist _ _)

theorem readsAs_toSortedJson (task : Task) :
    Json.IsValue task.toSortedJson.chars ∧
      Task.ofJson? (String.ofList task.toSortedJson.chars) = some task :=
  ⟨Json.isValue_object task.sortedFields, task.ofJson?_toSortedJson⟩

/-- A task is read back from each of its forms: from any record that gives its texts, in whatever
order and spelling, among whatever members with other names, and with or without the texts that are
empty; and so from the two forms that are written. In every state of the service the answer to a
request for a row is read back as this row, and a list of tasks is an array of values that are read
back as the rows listed. -/
theorem tasks_read_back :
    (∀ (task : Task) (fields : Fields) (s : String),
      Json.IsRecord Task.fieldNames s.toList fields → task.IsGivenBy fields →
      Task.ofJson? s = some task) ∧
    (∀ task : Task, Task.ofJson? task.toJson.write = some task ∧
      Task.ofJson? task.toSortedJson.write = some task) ∧
    ∀ (st : State), st.Reachable → ∀ (settings : Settings) (now : Instant) (request : Request),
      (∀ row ∈ st.store.rows, Passes settings now request "GET" "/api/task" →
        QueryNames request row.id →
        ∃ body, (handle settings now request).run st.store =
            (st.store, ⟨200, some "application/json", body⟩) ∧
          Task.ofJson? body = some row.toTask) ∧
      (request.method = "GET" → request.path = "/api/tasks" →
        ((handle settings now request).run st.store).2.status = 200 →
        ∃ rows entries, rows ⊆ st.store.rows ∧ rows.Nodup ∧
          ((handle settings now request).run st.store).2.body.toList =
            "\x7b\"tasks\":[".toList ++ [','].intercalate entries ++ "]\x7d".toList ∧
          List.Forall₂ (fun entry row => Json.IsValue entry ∧
            Task.ofJson? (String.ofList entry) = some row.toTask) entries rows) := by
  refine ⟨fun task fields s h hgiven => Task.ofJson?_eq_some h hgiven,
    fun task => ⟨task.ofJson?_toJson, task.ofJson?_toSortedJson⟩, ?_⟩
  intro st hst settings now request
  have hs := hst.sound.wellKept.keyed
  constructor
  · intro row hrow hpasses hnames
    exact ⟨_, run_handle_getTask hpasses hnames (hs.row?_of_mem hrow), row.toTask.ofJson?_toJson⟩
  · intro hmethod hpath hstatus
    obtain ⟨query, limit, tasks, -, hlist, hrun⟩ :=
      exists_list_of_run_handle hmethod hpath hstatus
    obtain ⟨rows, hsubset, hnodup, rfl⟩ := exists_rows_of_list hs hlist
    refine ⟨rows, (rows.map Row.toTask).map fun task => task.toSortedJson.chars, hsubset, hnodup,
      ?_, ?_⟩
    · rw [hrun, toList_body_listed]
    · rw [List.map_map, List.forall₂_map_left_iff, List.forall₂_same]
      exact fun row _ => readsAs_toSortedJson row.toTask

/-- A title with quotes and with a character beyond the basic plane is read back from both answers,
and a task of which only the title is given is read among other members. -/
theorem tasks_read_back_quotes : ∃ (st : State) (row : Row) (one all : Request) (body : String),
    st.Reachable ∧ st.store.rows = [row] ∧
    row = ⟨1, "20240209", "say \"hi\" 😀", "", ""⟩ ∧
    one.target = "/api/task?id=1" ∧ all.target = "/api/tasks" ∧
    (handle ⟨none, none, Day.epoch⟩ .epoch one).run st.store =
      (st.store, ⟨200, some "application/json", body⟩) ∧
    Task.ofJson? body = some row.toTask ∧
    (∃ entry, ((handle ⟨none, none, Day.epoch⟩ .epoch all).run st.store).2.body.toList =
        "\x7b\"tasks\":[".toList ++ entry ++ "]\x7d".toList ∧
      Task.ofJson? (String.ofList entry) = some row.toTask) ∧
    Task.ofJson? "\x7b\"x\":null,\"title\":\"rent\"\x7d" = some ⟨"", "", "rent", "", ""⟩ := by
  let settings : Settings := ⟨none, none, 738911, by decide, by decide⟩
  let add : Arrival := ⟨settings, .epoch, ⟨"POST", "/api/task", some "application/json", [],
    "\x7b\"date\":\"20240209\",\"title\":\"say \\\"hi\\\" \\ud83d\\ude00\"\x7d"⟩⟩
  let row : Row := ⟨1, "20240209", "say \"hi\" 😀", "", ""⟩
  let one : Request := ⟨"GET", "/api/task?id=1", none, [], ""⟩
  let all : Request := ⟨"GET", "/api/tasks", none, [], ""⟩
  have hrows : (State.initial.serve add).store.rows = [row] := by decide +kernel
  have hpasses : Passes ⟨none, none, Day.epoch⟩ .epoch one "GET" "/api/task" :=
    ⟨rfl, by decide +kernel, rfl⟩
  have hnames : QueryNames one 1 :=
    ⟨"1", by decide +kernel, readId_eq_ok_iff.mp (by decide +kernel)⟩
  have hstatus : ((handle ⟨none, none, Day.epoch⟩ .epoch all).run
      (State.initial.serve add).store).2.status = 200 := by
    decide +kernel
  obtain ⟨hread, -, hserved⟩ := tasks_read_back
  have hserved := hserved _ (State.Reachable.initial.serve add) ⟨none, none, Day.epoch⟩ .epoch
  have hmem : row ∈ (State.initial.serve add).store.rows := by simp [hrows]
  obtain ⟨body, hrun, hbody⟩ := (hserved one).1 row hmem hpasses hnames
  obtain ⟨rows, entries, hsubset, hnodup, hlist, hentries⟩ :=
    (hserved all).2 rfl (by decide +kernel) hstatus
  rw [hrows] at hsubset
  have hlength : rows.length ≤ 1 := (List.subperm_of_subset hnodup hsubset).length_le
  have hentry : ∃ entry, ((handle ⟨none, none, Day.epoch⟩ .epoch all).run
        (State.initial.serve add).store).2.body.toList =
          "\x7b\"tasks\":[".toList ++ entry ++ "]\x7d".toList ∧
      Task.ofJson? (String.ofList entry) = some row.toTask := by
    cases hentries with
    | nil => exact absurd hlist (by decide +kernel)
    | @cons entry x _ _ hentry hrest =>
      obtain rfl : x = row := List.mem_singleton.mp (hsubset List.mem_cons_self)
      cases hrest with
      | nil => exact ⟨entry, by rw [hlist, List.intercalate_singleton], hentry.2⟩
      | cons => simp at hlength
  have hother : Json.IsEntry Task.fieldNames "\"x\":null".toList [] :=
    .other (Json.isQuoted_quoted "x") (by decide) Json.allSpace_nil Json.allSpace_nil (.atom .null)
      Json.allSpace_nil
  have htitle : Json.AreEntries Task.fieldNames _ [("title", "rent")] :=
    .last (.asked (Json.isMember_written ("title", "rent")) (by decide))
  have hrecord := Json.IsRecord.entries Json.allSpace_nil (.cons hother htitle) Json.allSpace_nil
  have hgiven : Task.IsGivenBy ⟨"", "", "rent", "", ""⟩ [("title", "rent")] :=
    ⟨by simp [Fields.Distinct], by decide, by decide⟩
  have hrent := hread _ _ "\x7b\"x\":null,\"title\":\"rent\"\x7d" hrecord hgiven
  exact ⟨_, row, one, all, body, State.Reachable.initial.serve add, hrows, rfl, rfl, rfl, hrun,
    hbody, hentry, hrent⟩

end Service

end Agenda
