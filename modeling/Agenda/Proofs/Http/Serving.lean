import Agenda.Proofs.Http.Effect

/-!
# The service at work

Requests arrive at any time, and each goes on call by call while others are being answered. In all
states that this can lead to, the rows are well kept, and each has an id that has been handed out
before. A request that is then answered without a break touches one row as it asks for, when it is
answered with success, and otherwise none.
-/

namespace Agenda

open Text

/-- The id that the answer to a call hands out. -/
def Call.handedOut : (c : Call) → c.Answer → List Nat
  | add _, (id : Nat) => [id]
  | get _, _ => []
  | update _, _ => []
  | delete _, _ => []
  | setDate _ _, _ => []
  | list _ _, _ => []

theorem Call.handedOut_eq_nil {c : Call} {answer : c.Answer}
    (h : ∀ i, ¬ Exchange.Touches i ⟨c, answer⟩) : c.handedOut answer = [] := by
  cases c with
  | add task => exact absurd (.add task) (h _)
  | get | update | delete | setDate | list => rfl

/-- The ids that the run of a script hands out. -/
def Script.handedOut {α : Type} (s : Store) : Script α → List Nat
  | done _ => []
  | call c next =>
    c.handedOut (s.perform c).2 ++ (next (s.perform c).2).handedOut (s.perform c).1

namespace Store

variable {s s' : Store} {id : String} {ids : List Nat}

/-- What a call can do to a store, with the ids that it hands out. -/
inductive Alters (s : Store) : Store → List Nat → Prop
  | unchanged : Alters s s []
  | added (task : Task) : Alters s (s.add task).1 [s.lastId + 1]
  | replaced {row : Row} {result : Option Row} {s' : Store} (hid : ∀ x ∈ result, x.id = row.id)
    (hreplaces : s.Replaces row result s') : Alters s s' []

theorem Keyed.alters (hs : s.Keyed) (c : Call) :
    s.Alters (s.perform c).1 (c.handedOut (s.perform c).2) := by
  have houtcome := hs.outcome c
  generalize (s.perform c).1 = s', (s.perform c).2 = answer at houtcome ⊢
  cases houtcome with
  | added task => exact .added task
  | rewritten _ h => exact .replaced (by simp [Row.ofTask]) h
  | removed _ h => exact .replaced (by simp) h
  | moved _ h => exact .replaced (by simp) h
  | silent h =>
    rw [Call.handedOut_eq_nil h]
    exact .unchanged

/-- The rows have ids that have been handed out, and the store knows the highest of these. -/
structure Numbers (s : Store) (ids : List Nat) : Prop where
  mem_ids : ∀ row ∈ s.rows, row.id ∈ ids
  le_lastId : ∀ id ∈ ids, id ≤ s.lastId

theorem Numbers.alters {new : List Nat} (h : s.Numbers ids) (halters : s.Alters s' new) :
    s'.Numbers (ids ++ new) := by
  cases halters with
  | unchanged => rwa [List.append_nil]
  | added task =>
    constructor
    · intro row hrow
      rcases List.mem_append.mp hrow with hrow | hrow
      · exact List.mem_append_left _ (h.mem_ids row hrow)
      · rw [List.mem_singleton.mp hrow]
        exact List.mem_append_right _ (List.mem_singleton_self _)
    · intro id hid
      rcases List.mem_append.mp hid with hid | hid
      · exact Nat.le_succ_of_le (h.le_lastId id hid)
      · rw [List.mem_singleton.mp hid]
        exact Nat.le_refl _
  | replaced hid hreplaces =>
    rw [List.append_nil]
    constructor
    · intro x hx
      rcases hreplaces.mem_or_mem hx with hx | hx
      · exact h.mem_ids x hx
      · rw [hid x hx]
        exact h.mem_ids _ hreplaces.mem
    · rw [hreplaces.lastId_eq]
      exact h.le_lastId

end Store

/-- Each call of the script leaves a well-kept store well kept, whatever happens in between. -/
def Script.IsCareful {α : Type} : Script α → Prop
  | done _ => True
  | call c next =>
    ∀ s : Store, s.WellKept → (s.perform c).1.WellKept ∧ (next (s.perform c).2).IsCareful

theorem Script.isCareful_call {α : Type} {c : Call} {next : c.Answer → Script α}
    (hperform : ∀ s : Store, s.WellKept → (s.perform c).1.WellKept)
    (hnext : ∀ answer, (next answer).IsCareful) : (call c next).IsCareful :=
  fun s hs => ⟨hperform s hs, hnext _⟩

theorem Script.IsCareful.wellKept_run {α : Type} {p : Script α} {s : Store} (hp : p.IsCareful)
    (hs : s.WellKept) : (p.run s).1.WellKept := by
  induction p generalizing s with
  | done result => exact hs
  | call c next ih =>
    obtain ⟨hperform, hnext⟩ := hp s hs
    exact ih _ hnext hperform

namespace Service

variable {settings : Settings} {now : Instant} {request : Request} {s s' : Store}
  {response : Response}

theorem isCareful_ofOutcome (outcome : Except StoreError Unit) :
    (ofOutcome outcome).IsCareful := by
  cases outcome <;> exact trivial

theorem isCareful_delete (id : String) : (Script.call (.delete id) ofOutcome).IsCareful :=
  Script.isCareful_call (fun _ hs => hs.delete) isCareful_ofOutcome

theorem isCareful_setDate (id : String) (d : Day) :
    (Script.call (.setDate id d.text) ofOutcome).IsCareful :=
  Script.isCareful_call (fun _ hs => hs.setDate_text d) isCareful_ofOutcome

theorem isCareful_finish {row : Row} (h : row.WellKept) (id : String) :
    (finish id row.toTask.completion).IsCareful := by
  have hturns := h.turnsOut
  generalize row.toTask.completion = completion at hturns ⊢
  cases hturns with
  | removed => exact isCareful_delete id
  | moved => exact isCareful_setDate id _
  | failed => exact trivial
  | tooFar => exact isCareful_setDate id _

theorem isCareful_lookUp (id : String) : (lookUp id).IsCareful := by
  intro s hs
  refine ⟨hs, ?_⟩
  rcases s.get_cases id with ⟨row, -, hrow, hget⟩ | ⟨n, -, -, hget⟩ | ⟨-, hget⟩
  · have hcareful := isCareful_finish (hs.rows row (Store.mem_of_row? hrow)) id
    simp only [Store.perform, hget]
    exact hcareful
  · simp only [Store.perform, hget]
    exact trivial
  · simp only [Store.perform, hget]
    exact trivial

theorem isCareful_handle (settings : Settings) (now : Instant) (request : Request) :
    (handle settings now request).IsCareful := by
  have hplan := plan_handle settings now request
  generalize handle settings now request = script at hplan ⊢
  cases hplan with
  | answer => exact trivial
  | read hreads hends =>
    refine Script.isCareful_call (fun s hs => by rwa [hreads]) fun answer => ?_
    obtain ⟨response, hresponse⟩ := hends answer
    rw [hresponse]
    exact trivial
  | add _ _ hkept =>
    exact Script.isCareful_call (fun _ hs => hs.add (Task.keeps_of_prepare hkept)) fun _ => trivial
  | edit _ _ hkept =>
    exact Script.isCareful_call (fun _ hs => hs.update (Task.keeps_of_prepare hkept))
      isCareful_ofOutcome
  | delete => exact isCareful_delete _
  | complete => exact isCareful_lookUp _

theorem wellKept_of_run (hs : s.WellKept)
    (hrun : (handle settings now request).run s = (s', response)) : s'.WellKept := by
  have hwellKept := (isCareful_handle settings now request).wellKept_run hs
  rwa [hrun] at hwellKept

/-- A request, and the settings and the time at which it arrives. Another day may have come since
the last arrival. -/
structure Arrival where
  settings : Settings
  now : Instant
  request : Request

def Arrival.script (a : Arrival) : Script Response := handle a.settings a.now a.request

/-- The store, what is left of the scripts of the requests that have arrived, and the ids that have
been handed out. -/
structure State where
  store : Store
  scripts : List (Script Response)
  ids : List Nat

/-- A request arrives, or one that has arrived makes its next call. -/
inductive Step : State → State → Prop
  | arrive (st : State) (a : Arrival) : Step st { st with scripts := a.script :: st.scripts }
  | call {st : State} {before after : List (Script Response)} {c : Call}
    {next : c.Answer → Script Response} (h : st.scripts = before ++ .call c next :: after) :
    Step st
      { store := (st.store.perform c).1
        scripts := before ++ next (st.store.perform c).2 :: after
        ids := st.ids ++ c.handedOut (st.store.perform c).2 }

namespace State

variable {st st' : State}

/-- The service starts with an empty store. -/
def initial : State := ⟨.empty, [], []⟩

/-- The states that requests lead to, in any number and with their calls in any order. -/
inductive Reachable : State → Prop
  | initial : Reachable initial
  | step {st st' : State} (h : Reachable st) (hstep : Step st st') : Reachable st'

/-- The state when one more request has been answered without a break. -/
def serve (st : State) (a : Arrival) : State where
  store := (a.script.run st.store).1
  scripts := .done (a.script.run st.store).2 :: st.scripts
  ids := st.ids ++ a.script.handedOut st.store

theorem Reachable.run {s : Store} {ids : List Nat} {rest : List (Script Response)}
    {p : Script Response} (h : Reachable ⟨s, p :: rest, ids⟩) :
    Reachable ⟨(p.run s).1, .done (p.run s).2 :: rest, ids ++ p.handedOut s⟩ := by
  induction p generalizing s ids with
  | done response => simpa only [Script.run, Script.handedOut, List.append_nil] using h
  | call c next ih =>
    have hstep : Step ⟨s, .call c next :: rest, ids⟩ _ := @Step.call _ [] rest c next rfl
    have hcall := ih _ (h.step hstep)
    rwa [List.append_assoc] at hcall

theorem Reachable.serve (h : st.Reachable) (a : Arrival) : (st.serve a).Reachable :=
  (h.step (.arrive st a)).run

theorem reachable_foldl_serve (arrivals : List Arrival) :
    (arrivals.foldl State.serve initial).Reachable := by
  induction arrivals using List.reverseRecOn with
  | nil => exact .initial
  | append_singleton arrivals a ih =>
    rw [List.foldl_append]
    exact ih.serve a

/-- What holds in all reachable states. -/
structure Sound (st : State) : Prop where
  wellKept : st.store.WellKept
  numbers : st.store.Numbers st.ids
  careful : ∀ script ∈ st.scripts, script.IsCareful

theorem Sound.step (h : st.Sound) (hstep : Step st st') : st'.Sound := by
  cases hstep with
  | arrive a =>
    refine ⟨h.wellKept, h.numbers, List.forall_mem_cons.mpr ⟨?_, h.careful⟩⟩
    exact isCareful_handle a.settings a.now a.request
  | @call before after c next hscripts =>
    have hcareful := h.careful
    rw [hscripts, List.forall_mem_append, List.forall_mem_cons] at hcareful
    obtain ⟨hbefore, hnext, hafter⟩ := hcareful
    obtain ⟨hperform, hrest⟩ := hnext st.store h.wellKept
    refine ⟨hperform, h.numbers.alters (h.wellKept.keyed.alters c), ?_⟩
    exact List.forall_mem_append.mpr ⟨hbefore, List.forall_mem_cons.mpr ⟨hrest, hafter⟩⟩

theorem Reachable.sound (h : st.Reachable) : st.Sound := by
  induction h with
  | initial =>
    have hnumbers : Store.empty.Numbers [] := ⟨by simp [Store.empty], by simp⟩
    exact ⟨Store.wellKept_empty, hnumbers, by simp [State.initial]⟩
  | step _ hstep ih => exact ih.step hstep

/-- In every state, each row is well kept and has an id of its own, which has been handed out. -/
theorem rows_wellKept (h : st.Reachable) :
    (st.store.rows.Pairwise fun a b => a.id ≠ b.id) ∧
      ∀ row ∈ st.store.rows, 0 < row.id ∧ row.id ∈ st.ids ∧ row.WellKept := by
  obtain ⟨hwellKept, hnumbers, -⟩ := h.sound
  refine ⟨hwellKept.keyed.ascending.imp Nat.ne_of_lt, fun row hrow => ?_⟩
  exact ⟨hwellKept.keyed.pos row hrow, hnumbers.mem_ids row hrow, hwellKept.rows row hrow⟩

/-- A task with blanks around its texts is kept without them, on the first day after today. -/
theorem rows_wellKept_rent : ∃ (a : Arrival) (row : Row),
    a.request.body = "\x7b\"date\":\"20240120\",\"title\":\" rent \",\"repeat\":\" d 20\"\x7d" ∧
    Day.ofDate? ⟨2024, 1, 26⟩ = some a.settings.today ∧
    row = ⟨1, "20240209", "rent", "", "d 20"⟩ ∧ (initial.serve a).store.rows = [row] ∧
    (initial.serve a).ids = [1] ∧ row.WellKept := by
  let a : Arrival := ⟨⟨none, none, 738911, by decide, by decide⟩, .epoch,
    ⟨"POST", "/api/task", some "application/json", [],
      "\x7b\"date\":\"20240120\",\"title\":\" rent \",\"repeat\":\" d 20\"\x7d"⟩⟩
  have hrows : (initial.serve a).store.rows = [⟨1, "20240209", "rent", "", "d 20"⟩] := by
    decide +kernel
  obtain ⟨-, hwellKept⟩ := rows_wellKept (Reachable.initial.serve a)
  rw [hrows, List.forall_mem_singleton] at hwellKept
  exact ⟨a, _, rfl, by decide, rfl, hrows, by decide +kernel, hwellKept.2.2⟩

end State

theorem run_ofOutcome_cases (s : Store) (change : Except StoreError Store) :
    ((ofOutcome (s.settle change).2).run (s.settle change).1).1 = s ∨
      ((ofOutcome (s.settle change).2).run (s.settle change).1).2.status = 200 := by
  cases change with
  | error e => exact .inl rfl
  | ok s' => exact .inr rfl

theorem run_finish_cases (s : Store) (id : String) (completion : Except TaskError Completion) :
    ((finish id completion).run s).1 = s ∨ ((finish id completion).run s).2.status = 200 := by
  cases completion with
  | error e => exact .inl rfl
  | ok completion =>
    cases completion with
    | delete =>
      simp only [finish, Script.run, Store.perform]
      generalize s.delete id = change
      exact run_ofOutcome_cases s change
    | reschedule date =>
      simp only [finish, Script.run, Store.perform]
      generalize s.setDate id date = change
      exact run_ofOutcome_cases s change

/-- A request leaves the store as it is, unless it asks for a change and succeeds. -/
theorem run_handle_cases (settings : Settings) (now : Instant) (request : Request) (s : Store) :
    ((handle settings now request).run s).1 = s ∨
      (IsChange request ∧ ((handle settings now request).run s).2.status = 200) := by
  have hplan := plan_handle settings now request
  generalize handle settings now request = script at hplan ⊢
  cases hplan with
  | answer => exact .inl rfl
  | @read c next hreads hends =>
    obtain ⟨response, hresponse⟩ := hends (s.perform c).2
    rw [Script.run, hresponse, Script.run, hreads]
    exact .inl rfl
  | add hpasses => exact .inr ⟨.inl ⟨hpasses.path_eq, .inl hpasses.method_eq⟩, rfl⟩
  | @edit task kept hpasses =>
    have hchange : IsChange request := .inl ⟨hpasses.path_eq, .inr (.inl hpasses.method_eq)⟩
    simp only [Script.run, Store.perform]
    exact (run_ofOutcome_cases s (s.update kept)).imp_right fun h => ⟨hchange, h⟩
  | @delete raw hpasses =>
    have hchange : IsChange request := .inl ⟨hpasses.path_eq, .inr (.inr hpasses.method_eq)⟩
    simp only [Script.run, Store.perform]
    generalize s.delete (trim raw) = change
    exact (run_ofOutcome_cases s change).imp_right fun h => ⟨hchange, h⟩
  | @complete raw hpasses =>
    have hchange : IsChange request := .inr ⟨hpasses.path_eq, hpasses.method_eq⟩
    rw [run_lookUp]
    cases s.get (trim raw) with
    | error e => exact .inl rfl
    | ok task => exact (run_finish_cases s _ _).imp_right fun h => ⟨hchange, h⟩

/-- In every store, a request that reads and one that fails change neither a row nor the highest
id handed out. -/
theorem store_unchanged (s : Store) (a : Arrival)
    (h : (a.script.run s).2.status ≠ 200 ∨ a.request.method = "GET" ∨
      a.request.method = "HEAD") : (a.script.run s).1 = s := by
  rcases run_handle_cases a.settings a.now a.request s with hsame | ⟨hchange, hok⟩
  · exact hsame
  · rcases h with hfailed | hreading
    · exact absurd hok hfailed
    · exact absurd hchange (not_isChange_of_reading hreading)

/-- The next year is too far away for the task, which stays as it is. -/
theorem store_unchanged_far : ∃ (s : Store) (a : Arrival),
    s = ⟨[⟨1, "99990601", "rent", "", "y"⟩], 1⟩ ∧ a.request.method = "POST" ∧
    a.request.target = "/api/task/done?id=1" ∧
    (a.script.run s).2 = .badRequest "bad date format" ∧ (a.script.run s).1 = s := by
  let s : Store := ⟨[⟨1, "99990601", "rent", "", "y"⟩], 1⟩
  let a : Arrival := ⟨⟨none, none, 738911, by decide, by decide⟩, .epoch,
    ⟨"POST", "/api/task/done?id=1", none, [], ""⟩⟩
  have hanswer : (a.script.run s).2 = .badRequest "bad date format" := by decide +kernel
  refine ⟨s, a, rfl, rfl, rfl, hanswer, store_unchanged s a (.inl ?_)⟩
  rw [hanswer]
  decide

/-- A request that is answered with success in a reachable state touches exactly one row, as it
asks for. A new row stands last, under an id above all those handed out. An edit puts the texts of
its task into the row that it names, and a removal takes this row away. A completion removes its
row when it has no rule, and otherwise moves it to the first occurrence after its day, counted from
its day. -/
theorem touches_one_row {st : State} {a : Arrival} (h : st.Reachable)
    (hrun : a.script.run st.store = (s', response)) (hok : response.status = 200) :
    (a.request.method = "POST" → a.request.path = "/api/task" →
      ∃ (task kept : Task) (id : Nat), bodyTask? a.request = some task ∧
        task.prepare a.settings.today = .ok kept ∧ (∀ i ∈ st.ids, i < id) ∧
        response = added id ∧ s' = ⟨st.store.rows ++ [Row.ofTask id kept], id⟩) ∧
    (a.request.method = "PUT" → a.request.path = "/api/task" →
      ∃ (task kept : Task) (row : Row), bodyTask? a.request = some task ∧
        NamesId task.id row.id ∧ task.prepare a.settings.today = .ok kept ∧
        st.store.Replaces row (some (Row.ofTask row.id kept)) s') ∧
    (a.request.method = "DELETE" → a.request.path = "/api/task" →
      ∃ row, QueryNames a.request row.id ∧ st.store.Replaces row none s') ∧
    (a.request.method = "POST" → a.request.path = "/api/task/done" →
      ∃ row, QueryNames a.request row.id ∧
        ((row.repeatRule = "" ∧ st.store.Replaces row none s') ∨
          ∃ (rule : Rule) (d next : Day), Rule.parse row.repeatRule = .ok rule ∧
            row.date = d.text ∧ rule.IsNext d d next ∧
            st.store.Replaces row (some { row with date := next.text }) s')) := by
  obtain ⟨hwellKept, hnumbers, -⟩ := h.sound
  have heffect := effect_of_run hwellKept hrun
  refine ⟨fun hmethod hpath => ?_, fun hmethod hpath => ?_, fun hmethod hpath => ?_,
    fun hmethod hpath => ?_⟩
  · obtain ⟨kept, hadds, rfl, rfl⟩ := heffect.of_post_task hok hmethod hpath
    obtain ⟨task, hbody, hprepared⟩ := hadds.keeps
    refine ⟨task, kept, st.store.lastId + 1, hbody, hprepared, fun i hi => ?_, rfl, rfl⟩
    exact Nat.lt_succ_of_le (hnumbers.le_lastId i hi)
  · obtain ⟨row, kept, hedits, hreplaces⟩ := heffect.of_put_task hok hmethod hpath
    obtain ⟨task, hbody, hid, hprepared⟩ := hedits.keeps
    exact ⟨task, kept, row, hbody, hid, hprepared, hreplaces⟩
  · obtain ⟨row, hdeletes, hreplaces⟩ := heffect.of_delete_task hok hmethod hpath
    exact ⟨row, hdeletes.names, hreplaces⟩
  · obtain ⟨row, result, hcompletes, hbecomes, hreplaces⟩ :=
      heffect.of_post_taskDone hok hmethod hpath
    refine ⟨row, hcompletes.names, ?_⟩
    cases hbecomes with
    | removed hempty => exact .inl ⟨hempty, hreplaces⟩
    | moved hrule hdate _ _ hnext => exact .inr ⟨_, _, _, hrule, hdate, hnext, hreplaces⟩

/-- The id of the task is written with a blank, a sign and a zero. -/
theorem touches_one_row_spelled : ∃ (add done : Arrival) (s' : Store) (row : Row)
    (rule : Rule) (d next : Day), done.request.target = "/api/task/done?id=%20%2B01" ∧
    done.script.run (State.initial.serve add).store = (s', .done) ∧
    s' = ⟨[⟨1, "20240229", "rent", "", "d 20"⟩], 1⟩ ∧ QueryNames done.request row.id ∧
    Rule.parse row.repeatRule = .ok rule ∧ row.date = d.text ∧ rule.IsNext d d next ∧
    (State.initial.serve add).store.Replaces row (some { row with date := next.text }) s' := by
  let settings : Settings := ⟨none, none, 738911, by decide, by decide⟩
  let add : Arrival := ⟨settings, .epoch, ⟨"POST", "/api/task", some "application/json", [],
    "\x7b\"date\":\"20240209\",\"title\":\"rent\",\"repeat\":\"d 20\"\x7d"⟩⟩
  let done : Arrival := ⟨settings, .epoch, ⟨"POST", "/api/task/done?id=%20%2B01", none, [], ""⟩⟩
  have hstore : (State.initial.serve add).store =
      ⟨[⟨1, "20240209", "rent", "", "d 20"⟩], 1⟩ := by
    decide +kernel
  have hrun : done.script.run (State.initial.serve add).store =
      (⟨[⟨1, "20240229", "rent", "", "d 20"⟩], 1⟩, .done) := by
    decide +kernel
  obtain ⟨-, -, -, htouches⟩ :=
    touches_one_row (State.Reachable.initial.serve add) hrun (by decide)
  obtain ⟨row, hnames, hempty | ⟨rule, d, next, hrule, hdate, hnext, hreplaces⟩⟩ :=
    htouches rfl (by decide)
  · -- only a row without a rule is removed
    have hmem := hempty.2.mem
    rw [hstore, List.mem_singleton] at hmem
    rw [hmem] at hempty
    exact absurd hempty.1 (by decide)
  · exact ⟨add, done, _, row, rule, d, next, rfl, hrun, rfl, hnames, hrule, hdate, hnext, hreplaces⟩

end Service
end Agenda
