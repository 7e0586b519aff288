import Agenda.Http.Service
import Agenda.Proofs.Store.Interleaving
import Agenda.Proofs.Text.Numeral

/-!
# What a request comes to

A request is answered without the store, or by one call of it. The exception is a task that is
done, which is looked up in one call and removed or moved in another. Only the four requests that
change tasks come to a call that writes, after they have passed the gate and what they hold has
been accepted.
-/

namespace Agenda

open Text

def Route.path : Route → String
  | signIn => "/api/signin"
  | nextDate => "/api/nextdate"
  | task => "/api/task"
  | tasks => "/api/tasks"
  | taskDone => "/api/task/done"

theorem Route.path_eq_of_ofPath? {path : String} {route : Route} (h : ofPath? path = some route) :
    path = route.path := by
  unfold ofPath? at h
  repeat' split at h
  all_goals cases h
  all_goals assumption

theorem Route.ofPath?_path (route : Route) : ofPath? route.path = some route := by
  cases route <;> rfl

namespace Service

variable {settings : Settings} {now : Instant} {request : Request}

/-- The task in the body. -/
def bodyTask? (request : Request) : Option Task :=
  if isReadable request then Task.ofJson? request.body else none

/-- The id in the query, which is empty when none is given. -/
def queryId? (request : Request) : Option String :=
  match Form.read ["id"] request.query with
  | .error _ => none
  | .ok fields => some (textOf fields "id")

/-- The request has passed the gate with the method and the path. -/
structure Passes (settings : Settings) (now : Instant) (request : Request) (method path : String) :
    Prop where
  method_eq : request.method = method
  path_eq : request.path = path
  authorized : isAuthorized settings now request = true

/-- The request asks for a change of the tasks. -/
def IsChange (request : Request) : Prop :=
  (request.path = "/api/task" ∧
    (request.method = "POST" ∨ request.method = "PUT" ∨ request.method = "DELETE")) ∨
  (request.path = "/api/task/done" ∧ request.method = "POST")

theorem IsChange.ofPath?_ne_none (h : IsChange request) : Route.ofPath? request.path ≠ none := by
  rcases h with ⟨hpath, -⟩ | ⟨hpath, -⟩
  all_goals
    rw [hpath]
    decide

/-- The answer that names the id of a new task. -/
def added (id : Nat) : Response := .json 200 (.object [("id", .number id)])

theorem added_injective {i j : Nat} (h : added i = added j) : i = j := by
  have hbody : (Json.Value.object [("id", .number i)]).chars =
      (Json.Value.object [("id", .number j)]).chars :=
    String.ofList_injective (congrArg Response.body h)
  simp only [Json.Value.chars, Json.Value.memberChars, List.cons.injEq, true_and,
    List.append_cancel_right_eq, List.append_cancel_left_eq] at hbody
  have hi := isInteger_decimal i
  rw [hbody] at hi
  exact Int.ofNat.inj (hi.unique (isInteger_decimal j))

/-- What is left to do when the task with the id has been looked up. -/
def finish (id : String) : Except TaskError Completion → Script Response
  | .error e => .done (.ofTaskError e)
  | .ok .delete => .call (.delete id) ofOutcome
  | .ok (.reschedule date) => .call (.setDate id date) ofOutcome

theorem run_ofOutcome (s : Store) (change : Except StoreError Store) :
    (ofOutcome (s.settle change).2).run (s.settle change).1 =
      match change with
      | .error e => (s, .ofStoreError e)
      | .ok s' => (s', .done) := by
  cases change <;> rfl

def afterLookUp (id : String) : Except StoreError Task → Script Response
  | .error e => .done (.ofStoreError e)
  | .ok task => finish id task.completion

/-- Looks the task with the id up and does it. -/
def lookUp (id : String) : Script Response := .call (.get id) (afterLookUp id)

theorem run_lookUp (s : Store) (id : String) :
    (lookUp id).run s =
      match s.get id with
      | .error e => (s, .ofStoreError e)
      | .ok task => (finish id task.completion).run s := by
  simp only [lookUp, Script.run, Store.perform]
  cases s.get id <;> rfl

theorem run_finish_delete_eq (s : Store) (id : String) :
    (finish id (.ok .delete)).run s =
      match s.delete id with
      | .error e => (s, .ofStoreError e)
      | .ok s' => (s', .done) := by
  simp only [finish, Script.run, Store.perform]
  generalize s.delete id = change
  cases change <;> rfl

theorem run_finish_reschedule_eq (s : Store) (id date : String) :
    (finish id (.ok (.reschedule date))).run s =
      match s.setDate id date with
      | .error e => (s, .ofStoreError e)
      | .ok s' => (s', .done) := by
  simp only [finish, Script.run, Store.perform]
  generalize s.setDate id date = change
  cases change <;> rfl

/-- What the script of a request can be. -/
inductive Plan (settings : Settings) (now : Instant) (request : Request) : Script Response → Prop
  | answer {response : Response} (h : IsChange request → response.status ≠ 200) :
    Plan settings now request (.done response)
  | read {c : Call} {next : c.Answer → Script Response} (hreads : c.Reads) (hends : c.Ends next)
    (hmethod : request.method = "GET" ∨ request.method = "HEAD") :
    Plan settings now request (.call c next)
  | add {task kept : Task} (hpasses : Passes settings now request "POST" "/api/task")
    (hbody : bodyTask? request = some task) (hkept : task.prepare settings.today = .ok kept) :
    Plan settings now request (.call (.add kept) fun (id : Nat) => .done (added id))
  | edit {task kept : Task} (hpasses : Passes settings now request "PUT" "/api/task")
    (hbody : bodyTask? request = some task)
    (hkept : { task with id := trim task.id }.prepare settings.today = .ok kept) :
    Plan settings now request (.call (.update kept) ofOutcome)
  | delete {raw : String} (hpasses : Passes settings now request "DELETE" "/api/task")
    (hraw : queryId? request = some raw) :
    Plan settings now request (.call (.delete (trim raw)) ofOutcome)
  | complete {raw : String} (hpasses : Passes settings now request "POST" "/api/task/done")
    (hraw : queryId? request = some raw) :
    Plan settings now request (lookUp (trim raw))

theorem withId_cases (request : Request) (next : String → Script Response) :
    (∃ response, response.status = 400 ∧ (∀ raw, queryId? request = some raw → trim raw = "") ∧
        withId request next = .done response) ∨
      ∃ raw, queryId? request = some raw ∧ trim raw ≠ "" ∧
        withId request next = next (trim raw) := by
  unfold withId withQuery queryId?
  cases Form.read ["id"] request.query with
  | error name => exact .inl ⟨_, rfl, by simp, rfl⟩
  | ok fields =>
    dsimp only
    split
    · rename_i hempty
      exact .inl ⟨_, rfl, by rintro raw ⟨⟩; exact hempty, rfl⟩
    · exact .inr ⟨_, rfl, ‹_›, rfl⟩

theorem withId_eq {raw : String} (hraw : queryId? request = some raw) (hid : trim raw ≠ "")
    (next : String → Script Response) : withId request next = next (trim raw) := by
  rcases withId_cases request next with ⟨response, -, hnone, -⟩ | ⟨raw', hraw', -, h⟩
  · exact absurd (hnone raw hraw) hid
  · obtain rfl := Option.some.inj (hraw'.symm.trans hraw)
    exact h

theorem addTask_eq (settings : Settings) (request : Request) :
    addTask settings request =
      match bodyTask? request with
      | none => .done (.badRequest "bad json")
      | some task =>
        match task.prepare settings.today with
        | .error e => .done (.ofTaskError e)
        | .ok kept => .call (.add kept) fun (id : Nat) => .done (added id) := by
  unfold addTask withBody bodyTask? Task.ofJson?
  split
  · cases Json.readRecord Task.fieldNames request.body with
    | none => rfl
    | some fields =>
      simp only [Option.map_some]
      cases (Task.ofFields fields).prepare settings.today <;> rfl
  · rfl

theorem editTask_eq (settings : Settings) (request : Request) :
    editTask settings request =
      match bodyTask? request with
      | none => .done (.badRequest "bad json")
      | some task =>
        if trim task.id = "" then .done (.badRequest "id required")
        else
          match { task with id := trim task.id }.prepare settings.today with
          | .error e => .done (.ofTaskError e)
          | .ok kept => .call (.update kept) ofOutcome := by
  unfold editTask withBody bodyTask? Task.ofJson?
  split
  · cases Json.readRecord Task.fieldNames request.body with
    | none => rfl
    | some fields =>
      cases hkept : { Task.ofFields fields with
          id := trim (textOf fields "id") }.prepare settings.today with
      | error e =>
        simp only [Task.ofFields] at hkept
        simp only [Option.map_some, Task.ofFields, hkept]
      | ok kept =>
        simp only [Task.ofFields] at hkept
        simp only [Option.map_some, Task.ofFields, hkept]
  · rfl

theorem plan_of_status {response : Response} (h : response.status = 400) :
    Plan settings now request (.done response) :=
  .answer fun _ => by omega

theorem plan_addTask (hpasses : Passes settings now request "POST" "/api/task") :
    Plan settings now request (addTask settings request) := by
  rw [addTask_eq]
  cases hbody : bodyTask? request with
  | none => exact plan_of_status rfl
  | some task =>
    dsimp only
    cases hkept : task.prepare settings.today with
    | error e => exact plan_of_status rfl
    | ok kept => exact .add hpasses hbody hkept

theorem plan_editTask (hpasses : Passes settings now request "PUT" "/api/task") :
    Plan settings now request (editTask settings request) := by
  rw [editTask_eq]
  cases hbody : bodyTask? request with
  | none => exact plan_of_status rfl
  | some task =>
    dsimp only
    split
    · exact plan_of_status rfl
    · cases hkept : { task with id := trim task.id }.prepare settings.today with
      | error e => exact plan_of_status rfl
      | ok kept => exact .edit hpasses hbody hkept

theorem plan_deleteTask (hpasses : Passes settings now request "DELETE" "/api/task") :
    Plan settings now request (deleteTask request) := by
  rcases withId_cases request fun id => .call (.delete id) ofOutcome with
    ⟨response, hstatus, -, h⟩ | ⟨raw, hraw, -, h⟩
  · rw [deleteTask, h]
    exact plan_of_status hstatus
  · rw [deleteTask, h]
    exact .delete hpasses hraw

theorem completeTask_eq (request : Request) : completeTask request = withId request lookUp := by
  refine congrArg (withId request) (funext fun id => ?_)
  refine congrArg (Script.call (.get id)) (funext fun answer => ?_)
  cases answer with
  | error e => rfl
  | ok task =>
    dsimp only [afterLookUp]
    generalize task.completion = outcome
    cases outcome with
    | error e => rfl
    | ok completion => cases completion <;> rfl

theorem plan_completeTask (hpasses : Passes settings now request "POST" "/api/task/done") :
    Plan settings now request (completeTask request) := by
  rw [completeTask_eq]
  rcases withId_cases request lookUp with ⟨response, hstatus, -, h⟩ | ⟨raw, hraw, -, h⟩
  · rw [h]
    exact plan_of_status hstatus
  · rw [h]
    exact .complete hpasses hraw

theorem handle_eq_respond {route : Route} (hhead : request.method ≠ "HEAD")
    (hroute : Route.ofPath? request.path = some route)
    (hauthorized : isAuthorized settings now request = true) :
    handle settings now request = respond settings now route request := by
  simp [handle, hhead, answer, hroute, hauthorized]

theorem Passes.handle_eq {method : String} (route : Route)
    (h : Passes settings now request method route.path) (hhead : method ≠ "HEAD") :
    handle settings now request = respond settings now route request := by
  obtain ⟨rfl, hpath, hauthorized⟩ := h
  exact handle_eq_respond hhead (by rw [hpath, Route.ofPath?_path]) hauthorized

theorem respond_put (hmethod : request.method = "PUT") :
    respond settings now .task request = editTask settings request := by
  simp [respond, hmethod]

theorem respond_taskDone (hmethod : request.method = "POST") :
    respond settings now .taskDone request = completeTask request := by
  simp [respond, hmethod]

theorem handle_edit {task kept : Task} (hpasses : Passes settings now request "PUT" "/api/task")
    (hbody : bodyTask? request = some task) (hid : trim task.id ≠ "")
    (hkept : { task with id := trim task.id }.prepare settings.today = .ok kept) :
    handle settings now request = .call (.update kept) ofOutcome := by
  rw [Passes.handle_eq .task hpasses (by decide), respond_put hpasses.method_eq, editTask_eq, hbody]
  dsimp only
  rw [if_neg hid, hkept]

theorem handle_complete {raw : String}
    (hpasses : Passes settings now request "POST" "/api/task/done")
    (hraw : queryId? request = some raw) (hid : trim raw ≠ "") :
    handle settings now request = lookUp (trim raw) := by
  rw [Passes.handle_eq .taskDone hpasses (by decide), respond_taskDone hpasses.method_eq,
    completeTask_eq, withId_eq hraw hid]

/-- The script makes one call at most, which changes no store. -/
inductive IsReading : Script Response → Prop
  | done (response : Response) : IsReading (.done response)
  | call {c : Call} {next : c.Answer → Script Response} (hreads : c.Reads) (hends : c.Ends next) :
    IsReading (.call c next)

theorem IsReading.map {p : Script Response} (h : IsReading p) (f : Response → Response) :
    IsReading (p.map f) := by
  cases h with
  | done response => exact .done _
  | call hreads hends =>
    refine .call hreads fun answer => ?_
    obtain ⟨response, hresponse⟩ := hends answer
    exact ⟨f response, congrArg (Script.map f) hresponse⟩

theorem exists_nextDate_eq_done (settings : Settings) (request : Request) :
    ∃ response, nextDate settings request = .done response := by
  unfold nextDate withQuery
  cases Form.read ["now", "date", "repeat"] request.query with
  | error name => exact ⟨_, rfl⟩
  | ok fields =>
    dsimp only
    split <;> exact ⟨_, rfl⟩

theorem isReading_nextDate (settings : Settings) (request : Request) :
    IsReading (nextDate settings request) := by
  obtain ⟨response, hresponse⟩ := exists_nextDate_eq_done settings request
  rw [hresponse]
  exact .done response

theorem isReading_getTask (request : Request) : IsReading (getTask request) := by
  unfold getTask withId withQuery
  split
  · exact .done _
  · dsimp only
    split
    · exact .done _
    · refine .call (fun s => rfl) fun answer => ?_
      cases answer <;> exact ⟨_, rfl⟩

theorem isReading_listTasks (request : Request) : IsReading (listTasks request) := by
  unfold listTasks withQuery
  split
  · exact .done _
  · refine .call (fun s => rfl) fun answer => ?_
    cases answer <;> exact ⟨_, rfl⟩

theorem respond_of_reading (route : Route)
    (hmethod : request.method = "GET" ∨ request.method = "HEAD") :
    respond settings now route request =
      match route with
      | .signIn | .taskDone => .done (.empty 405)
      | .nextDate => nextDate settings request
      | .task => getTask request
      | .tasks => listTasks request := by
  have hget : (if request.method = "HEAD" then "GET" else request.method) = "GET" := by
    split
    · rfl
    · rename_i h
      exact hmethod.resolve_right h
  unfold respond
  cases route <;> simp [hget]

theorem isReading_answer (settings : Settings) (now : Instant)
    (hmethod : request.method = "GET" ∨ request.method = "HEAD") :
    IsReading (answer settings now request) := by
  unfold answer
  split
  · exact .done _
  · rename_i route _
    split
    · exact .done _
    · rw [respond_of_reading route hmethod]
      cases route with
      | signIn => exact .done _
      | nextDate => exact isReading_nextDate settings request
      | task => exact isReading_getTask request
      | tasks => exact isReading_listTasks request
      | taskDone => exact .done _

theorem not_isChange_of_reading (hmethod : request.method = "GET" ∨ request.method = "HEAD") :
    ¬ IsChange request := by
  unfold IsChange
  rcases hmethod with h | h
  all_goals
    rw [h]
    simp

theorem IsReading.plan {p : Script Response} (h : IsReading p)
    (hmethod : request.method = "GET" ∨ request.method = "HEAD") :
    Plan settings now request p := by
  cases h with
  | done response => exact .answer fun hchange => absurd hchange (not_isChange_of_reading hmethod)
  | call hreads hends => exact .read hreads hends hmethod

/-- The answer to the right password. -/
def granted (password : String) (now : Instant) : Response :=
  .json 200 (.object [("token", .text (Token.issue password now))])

theorem signIn_cases (settings : Settings) (request : Request) :
    (∃ response, ∀ now, signIn settings now request = .done response) ∨
      ∀ now, signIn settings now request = .done (granted (settings.password.getD "") now) := by
  unfold signIn withBody
  split
  · cases Json.readRecord ["password"] request.body with
    | none => exact .inl ⟨_, fun now => rfl⟩
    | some fields =>
      dsimp only
      split
      · exact .inr fun now => rfl
      · exact .inl ⟨_, fun now => rfl⟩
  · exact .inl ⟨_, fun now => rfl⟩

theorem plan_signIn (hpath : request.path = "/api/signin") :
    Plan settings now request (signIn settings now request) := by
  have hchange : ¬ IsChange request := by
    unfold IsChange
    rw [hpath]
    simp
  rcases signIn_cases settings request with ⟨response, h⟩ | h
  · rw [h]
    exact .answer fun hrequest => absurd hrequest hchange
  · rw [h]
    exact .answer fun hrequest => absurd hrequest hchange

theorem plan_respond {route : Route} (hpath : request.path = route.path)
    (hgate : route.isGated = true → isAuthorized settings now request = true)
    (hget : request.method ≠ "GET") (hhead : request.method ≠ "HEAD") :
    Plan settings now request (respond settings now route request) := by
  have hrefused : Plan settings now request (.done (.empty 405)) :=
    .answer fun _ => by decide
  unfold respond
  rw [if_neg hhead]
  cases route with
  | signIn =>
    dsimp only
    split
    · exact plan_signIn hpath
    · exact hrefused
  | nextDate =>
    dsimp only
    rw [if_neg hget]
    exact hrefused
  | task =>
    have hauthorized := hgate rfl
    dsimp only
    rw [if_neg hget]
    split
    · exact plan_addTask ⟨‹_›, hpath, hauthorized⟩
    · split
      · exact plan_editTask ⟨‹_›, hpath, hauthorized⟩
      · split
        · exact plan_deleteTask ⟨‹_›, hpath, hauthorized⟩
        · exact hrefused
  | tasks =>
    dsimp only
    rw [if_neg hget]
    exact hrefused
  | taskDone =>
    dsimp only
    split
    · exact plan_completeTask ⟨‹_›, hpath, hgate rfl⟩
    · exact hrefused

/-- Says all that a request can come to. -/
theorem plan_handle (settings : Settings) (now : Instant) (request : Request) :
    Plan settings now request (handle settings now request) := by
  unfold handle
  split
  · rename_i hhead
    exact ((isReading_answer settings now (.inr hhead)).map _).plan (.inr hhead)
  · rename_i hhead
    by_cases hget : request.method = "GET"
    · exact (isReading_answer settings now (.inl hget)).plan (.inl hget)
    · unfold answer
      split
      · rename_i hroute
        exact .answer fun hchange => absurd hroute hchange.ofPath?_ne_none
      · rename_i route hroute
        split
        · exact .answer fun _ => by decide
        · rename_i hgate
          refine plan_respond (Route.path_eq_of_ofPath? hroute) ?_ hget hhead
          intro hgated
          simpa [hgated] using hgate

theorem isSingle_ofOutcome {c : Call} {next : c.Answer → Script Response}
    (hnext : ∀ answer, ∃ outcome, next answer = ofOutcome outcome) :
    (Script.call c next).IsSingle := by
  refine .call fun answer => ?_
  obtain ⟨outcome, houtcome⟩ := hnext answer
  rw [houtcome]
  cases outcome <;> exact ⟨_, rfl⟩

theorem Plan.isSingle_or_eq_lookUp {script : Script Response}
    (h : Plan settings now request script) :
    script.IsSingle ∨ ∃ raw, Passes settings now request "POST" "/api/task/done" ∧
      queryId? request = some raw ∧ script = lookUp (trim raw) := by
  cases h with
  | answer => exact .inl (.done _)
  | read _ hends => exact .inl (.call hends)
  | add => exact .inl (.call fun _ => ⟨_, rfl⟩)
  | edit => exact .inl (isSingle_ofOutcome fun outcome => ⟨outcome, rfl⟩)
  | delete => exact .inl (isSingle_ofOutcome fun outcome => ⟨outcome, rfl⟩)
  | complete hpasses hraw => exact .inr ⟨_, hpasses, hraw, rfl⟩

theorem isSingle_finish (id : String) (completion : Except TaskError Completion) :
    (finish id completion).IsSingle := by
  cases completion with
  | error e => exact .done _
  | ok completion =>
    cases completion with
    | delete => exact isSingle_ofOutcome fun outcome => ⟨outcome, rfl⟩
    | reschedule date => exact isSingle_ofOutcome fun outcome => ⟨outcome, rfl⟩

theorem isShort_lookUp (id : String) : (lookUp id).IsShort := by
  refine .reads (fun s => rfl) fun answer => ?_
  cases answer with
  | error e => exact .done _
  | ok task => exact isSingle_finish id task.completion

theorem isShort_handle (settings : Settings) (now : Instant) (request : Request) :
    (handle settings now request).IsShort := by
  rcases (plan_handle settings now request).isSingle_or_eq_lookUp with h | ⟨raw, -, -, h⟩
  · exact .single h
  · rw [h]
    exact isShort_lookUp (trim raw)

end Service
end Agenda
