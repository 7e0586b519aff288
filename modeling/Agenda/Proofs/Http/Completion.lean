import Agenda.Proofs.Http.Effect
import Agenda.Proofs.Http.Form

/-!
# Doing a task that has just been added

The answer to a new task names its id, under which the task is done next. This succeeds for a task
without a rule, and for one that the rule moves to a day that can be written with eight digits. All
other tasks are kept and cannot be done: the store refuses a later date, and the horizon of the
search hides the next leap day from the rules that match nothing else.
-/

namespace Agenda

open Text

namespace Service

variable {settings : Settings} {now now' : Instant} {request : Request} {s s' : Store}

theorem handle_post {route : Route} (hmethod : request.method = "POST")
    (hroute : Route.ofPath? request.path = some route)
    (hauthorized : isAuthorized settings now request = true) :
    handle settings now request = respond settings now route request :=
  handle_eq_respond (by simp [hmethod]) hroute hauthorized

theorem respond_task (hmethod : request.method = "POST") :
    respond settings now .task request = addTask settings request := by
  simp [respond, hmethod]

theorem run_addTask_cases (settings : Settings) (request : Request) (s : Store) :
    (((addTask settings request).run s).1 = s ∧ ((addTask settings request).run s).2.status = 400) ∨
      ∃ task kept : Task, task.prepare settings.today = .ok kept ∧
        (addTask settings request).run s =
          ((s.add kept).1, .json 200 (.object [("id", .number (s.lastId + 1 : Nat))])) := by
  rw [addTask_eq]
  cases bodyTask? request with
  | none => exact .inl ⟨rfl, rfl⟩
  | some task =>
    dsimp only
    cases hkept : task.prepare settings.today with
    | error e => exact .inl ⟨rfl, rfl⟩
    | ok kept => exact .inr ⟨task, kept, hkept, rfl⟩

theorem exists_kept_of_run_addTask {i : Nat}
    (h : (addTask settings request).run s = (s', .json 200 (.object [("id", .number i)]))) :
    ∃ task kept : Task, task.prepare settings.today = .ok kept ∧ s' = (s.add kept).1 ∧
      i = s.lastId + 1 := by
  rcases run_addTask_cases settings request s with ⟨-, hrefused⟩ | ⟨task, kept, hkept, hadded⟩
  · rw [h] at hrefused
    cases hrefused
  · rw [h, Prod.mk.injEq] at hadded
    exact ⟨task, kept, hkept, hadded.1, added_injective hadded.2⟩

theorem withId_digits {n : Nat} (hquery : request.query = "id=".toList ++ digits n)
    (next : String → Script Response) :
    withId request next = next (String.ofList (digits n)) := by
  have hpair : Form.IsPair ("id=".toList ++ digits n) ("id", String.ofList (digits n)) := by
    have hname : Form.Encodes "id".toList "id" := Form.encodes_of_isUnreserved "id" (by decide)
    have hvalue : Form.Encodes (digits n) (String.ofList (digits n)) :=
      Form.encodes_of_isPlain String.toList_ofList fun c hc =>
        Form.isPlain_of_isDigit ((isDigits_digits n).isDigit c hc)
    exact ⟨_, _, rfl, hname, hvalue⟩
  have hname : ∀ field ∈ [("id", String.ofList (digits n))], field.1 ∈ ["id"] := by simp
  have hread := Form.read_eq_ok (.cons hpair .nil) hname (by simp [Fields.Distinct])
  rw [List.intercalate_singleton, ← hquery] at hread
  have htrim : trim (String.ofList (digits n)) = String.ofList (digits n) := by
    rw [trim, String.toList_ofList, trimmed_eq_self (isInteger_digits n).not_blank]
  have hempty : String.ofList (digits n) ≠ "" := by
    intro h
    apply (isDigits_digits n).ne_nil
    rw [← String.toList_ofList (l := digits n), h]
    rfl
  unfold withId withQuery
  rw [hread]
  simp [textOf, textOf?, htrim, hempty]

theorem run_completeTask {n : Nat} {row : Row} (hquery : request.query = "id=".toList ++ digits n)
    (hpos : 0 < n) (hmax : n ≤ int64Max) (hrow : s.row? n = some row) :
    (completeTask request).run s =
      (finish (String.ofList (digits n)) row.toTask.completion).run s := by
  have hget := Store.get_eq_ok (readId_digits hpos hmax) hrow
  rw [completeTask_eq, withId_digits hquery, run_lookUp, hget]

theorem run_finish_delete {id : String} {n : Nat} {row : Row} (hid : readId id = .ok n)
    (hrow : s.row? n = some row) : ∃ s', (finish id (.ok .delete)).run s = (s', .done) := by
  obtain ⟨s', hs'⟩ := Store.exists_delete_eq_ok hid hrow
  exact ⟨s', by rw [run_finish_delete_eq, hs']⟩

theorem run_finish_reschedule {id : String} {n : Nat} {row : Row} {next : Day}
    (hid : readId id = .ok n) (hrow : s.row? n = some row)
    (hyear : 0 ≤ next.year ∧ next.year ≤ 9999) :
    ∃ s', (finish id (.ok (.reschedule next.text))).run s = (s', .done) := by
  obtain ⟨s', hs'⟩ := Store.exists_setDate_eq_ok (trim_text_size hyear) hid hrow
  exact ⟨s', by rw [run_finish_reschedule_eq, hs']⟩

end Service

/-- The row of a day can be done: it has no rule, or its rule moves it from the day. -/
def Row.CanBeDone (row : Row) (d : Day) : Prop :=
  row.repeatRule = "" ∨ ∃ rule, Rule.parse row.repeatRule = .ok rule ∧ rule.Moves d

theorem Row.canBeDone_iff {row : Row} {d : Day} {rule : Rule}
    (hrule : Rule.parse row.repeatRule = .ok rule) : row.CanBeDone d ↔ rule.Moves d := by
  constructor
  · rintro (hempty | ⟨rule', hrule', hmoves⟩)
    · rw [hempty] at hrule
      cases hrule
    · obtain rfl : rule = rule' := Except.ok.inj (hrule.symm.trans hrule')
      exact hmoves
  · exact fun hmoves => .inr ⟨rule, hrule, hmoves⟩

theorem Row.canBeDone_iff_becomes {row : Row} {d : Day}
    (hread : row.repeatRule = "" ∨ ∃ rule, Rule.parse row.repeatRule = .ok rule)
    (hdate : row.date = d.text) (hyear : 0 ≤ d.year) :
    row.CanBeDone d ↔ ∃ result, row.Becomes result := by
  rcases hread with hempty | ⟨rule, hrule⟩
  · exact ⟨fun _ => ⟨none, .removed hempty⟩, fun _ => .inl hempty⟩
  · rw [Row.canBeDone_iff hrule]
    constructor
    · intro hmoves
      obtain ⟨-, o, ho, -⟩ := Rule.moves_iff.mp hmoves
      have hnext := Rule.isNext_of_nextOccurrence ho
      exact ⟨_, (Row.becomes_iff hrule hdate hyear).mpr ⟨hmoves, _, hnext, rfl⟩⟩
    · rintro ⟨result, hbecomes⟩
      exact ((Row.becomes_iff hrule hdate hyear).mp hbecomes).1

namespace Service

variable {settings : Settings} {now now' : Instant} {request add done : Request} {s s' : Store}
  {i : Nat} {row : Row} {d : Day}

/-- A row that can be done is done, and any other one stays and is refused. -/
theorem run_completeTask_cases (hquery : request.query = "id=".toList ++ digits i) (hpos : 0 < i)
    (hmax : i ≤ int64Max) (hrow : s.row? i = some row) (hdate : row.date = d.text)
    (hyear : 0 ≤ d.year)
    (hrule : row.repeatRule = "" ∨ ∃ rule, Rule.parse row.repeatRule = .ok rule) :
    (row.CanBeDone d ∧ ∃ s', (completeTask request).run s = (s', .done)) ∨
      (¬ row.CanBeDone d ∧ ((completeTask request).run s).1 = s ∧
        ((completeTask request).run s).2.status = 400) := by
  have hid := readId_digits hpos hmax
  have hturns := Row.turnsOut hrule hdate hyear
  rw [run_completeTask hquery hpos hmax hrow, Row.canBeDone_iff_becomes hrule hdate hyear]
  generalize row.toTask.completion = completion at hturns ⊢
  cases hturns with
  | removed h => exact .inl ⟨⟨_, h⟩, run_finish_delete hid hrow⟩
  | moved h hnext => exact .inl ⟨⟨_, h⟩, run_finish_reschedule hid hrow hnext⟩
  | failed h => exact .inr ⟨not_exists.mpr h, rfl, rfl⟩
  | tooFar h hfar =>
    rw [run_finish_tooFar hfar]
    exact .inr ⟨not_exists.mpr h, rfl, rfl⟩

/-- A task that has just been added is on a day from today on, and doing it succeeds just when it
has no rule or its rule moves it from this day. Otherwise it is refused and the store stays. -/
theorem completion_after_addTask (hs : s.Reachable)
    (htoday : 0 ≤ settings.today.year ∧ settings.today.year ≤ 9999)
    (hadd : add.method = "POST" ∧ add.path = "/api/task")
    (hauthorized : isAuthorized settings now add = true)
    (hanswer : (handle settings now add).run s = (s', .json 200 (.object [("id", .number i)])))
    (hmax : i ≤ int64Max)
    (hdone : done.method = "POST" ∧ done.path = "/api/task/done" ∧
      done.query = "id=".toList ++ digits i)
    (hauthorized' : isAuthorized settings now' done = true) :
    ∃ (row : Row) (d : Day), s'.row? i = some row ∧ row.date = d.text ∧ settings.today ≤ d ∧
      (((handle settings now' done).run s').2.status = 200 ↔ row.CanBeDone d) ∧
      (((handle settings now' done).run s').2.status = 200 ∨
        (((handle settings now' done).run s').2.status = 400 ∧
          ((handle settings now' done).run s').1 = s')) := by
  obtain ⟨hmethod, hpath⟩ := hadd
  obtain ⟨hmethod', hpath', hquery⟩ := hdone
  have hroute : Route.ofPath? add.path = some .task := by
    rw [hpath]
    decide
  have hroute' : Route.ofPath? done.path = some .taskDone := by
    rw [hpath']
    decide
  rw [handle_post hmethod hroute hauthorized, respond_task hmethod] at hanswer
  rw [handle_post hmethod' hroute' hauthorized', respond_taskDone hmethod']
  obtain ⟨task, kept, hkept, rfl, rfl⟩ := exists_kept_of_run_addTask hanswer
  obtain ⟨⟨d, hdate, hle⟩, hrule⟩ := Task.exists_day_of_prepare hkept
  have hrow := hs.keyed.row?_add kept
  have hyear := htoday.1.trans (Day.year_le_of_le hle)
  refine ⟨Row.ofTask (s.lastId + 1) kept, d, hrow, hdate, hle, ?_⟩
  rcases run_completeTask_cases hquery (Nat.succ_pos _) hmax hrow hdate hyear hrule with
    ⟨hcan, s', hrun⟩ | ⟨hcannot, hsame, hstatus⟩
  · rw [hrun]
    exact ⟨⟨fun _ => hcan, fun _ => rfl⟩, .inl rfl⟩
  · refine ⟨⟨fun h => ?_, fun h => absurd h hcannot⟩, .inr ⟨hstatus, hsame⟩⟩
    rw [hstatus] at h
    cases h

/-- A task of every twenty days that is sent in after its day is kept for the first day after today
and then done. -/
theorem completion_after_addTask_rent : ∃ (settings : Settings) (add done : Request) (s' : Store)
    (row : Row) (d : Day), Day.ofDate? ⟨2024, 1, 26⟩ = some settings.today ∧
    add.body = "\x7b\"date\":\"20240120\",\"title\":\"rent\",\"repeat\":\"d 20\"\x7d" ∧
    (handle settings .epoch add).run Store.empty = (s', .json 200 (.object [("id", .number 1)])) ∧
    s'.row? 1 = some row ∧ row.date = d.text ∧ row.date = "20240209" ∧ row.CanBeDone d ∧
    (handle settings .epoch done).run s' =
      (⟨[⟨1, "20240229", "rent", "", "d 20"⟩], 1⟩, .done) := by
  let settings : Settings := ⟨none, none, 738911, by decide, by decide⟩
  let add : Request := ⟨"POST", "/api/task", some "application/json", [],
    "\x7b\"date\":\"20240120\",\"title\":\"rent\",\"repeat\":\"d 20\"\x7d"⟩
  let done : Request := ⟨"POST", "/api/task/done?id=1", none, [], ""⟩
  let s' : Store := ⟨[⟨1, "20240209", "rent", "", "d 20"⟩], 1⟩
  have hadded : (handle settings .epoch add).run Store.empty =
      (s', .json 200 (.object [("id", .number (1 : Nat))])) := by
    decide +kernel
  have hdone : (handle settings .epoch done).run s' =
      (⟨[⟨1, "20240229", "rent", "", "d 20"⟩], 1⟩, .done) := by
    decide +kernel
  have hauthorized : isAuthorized settings .epoch done = true := rfl
  obtain ⟨row, d, hrow, hdate, -, hiff, -⟩ := completion_after_addTask .empty (by decide)
    (by decide) rfl hadded (by decide) (show _ ∧ _ ∧ done.query = _ by decide) hauthorized
  have hkept : s'.row? 1 = some ⟨1, "20240209", "rent", "", "d 20"⟩ := rfl
  obtain rfl := Option.some.inj (hkept.symm.trans hrow)
  rw [hdone] at hiff
  exact ⟨settings, add, done, s', _, d, by decide, rfl, hadded, hrow, hdate, rfl, hiff.mp rfl,
    hdone⟩

/-- With open access, on the day of the date, the task of the body is kept as the first one, and is
refused with the message when it is done right afterwards. -/
def KeepsThenRefuses (today : Date) (body message : String) : Prop :=
  ∃ (settings : Settings) (add done : Request) (s' : Store),
    settings.password = none ∧ Day.ofDate? today = some settings.today ∧
    add.method = "POST" ∧ add.path = "/api/task" ∧ add.body = body ∧
    isAuthorized settings .epoch add = true ∧
    (handle settings .epoch add).run Store.empty = (s', .json 200 (.object [("id", .number 1)])) ∧
    done.method = "POST" ∧ done.path = "/api/task/done" ∧ done.query = "id=1".toList ∧
    isAuthorized settings .epoch done = true ∧
    (handle settings .epoch done).run s' = (s', .badRequest message)

/-- The task of the 29th of February moves to the leap day of 2096, from which the horizon ends
before the one of 2104. The yearly task of 9999 would move to a year of five digits. -/
theorem addTask_keeps_then_refuses :
    KeepsThenRefuses ⟨2096, 2, 1⟩
      "\x7b\"date\":\"20960115\",\"title\":\"rent\",\"repeat\":\"m 29 2\"\x7d"
      "no next date for 'm 29 2' within 2196 days" ∧
    KeepsThenRefuses ⟨2024, 1, 26⟩
      "\x7b\"date\":\"99990601\",\"title\":\"rent\",\"repeat\":\"y\"\x7d"
      "bad date format" := by
  constructor
  · let row : Row := ⟨1, "20960229", "rent", "", "m 29 2"⟩
    let done : Request := ⟨"POST", "/api/task/done?id=1", none, [], ""⟩
    let leapDay : Day := ⟨765243, by decide, by decide⟩
    refine ⟨⟨none, none, 765215, by decide, by decide⟩,
      ⟨"POST", "/api/task", some "application/json", [],
        "\x7b\"date\":\"20960115\",\"title\":\"rent\",\"repeat\":\"m 29 2\"\x7d"⟩,
      done, ⟨[row], 1⟩, rfl, by decide, rfl, by decide, rfl, rfl, by decide +kernel, rfl,
      by decide, by decide, rfl, ?_⟩
    have hrule : Rule.parse row.toTask.repeatRule =
        .ok (.monthly twentyNinth (some february)) := by
      decide
    have hmiss : (Rule.monthly twentyNinth (some february)).MissesLeapDay leapDay :=
      ⟨matchesLeapDaysOnly_twentyNinth, 2100, by decide, by decide, by decide, by decide⟩
    have hsearch := Rule.nextOccurrence_eq_error_iff.mpr
      (.inr ⟨rfl, hmiss.exhausts (by decide)⟩)
    have hcompletion : row.toTask.completion = _ :=
      Task.completion_eq hrule (show row.toTask.date = leapDay.text by decide) (by decide)
    rw [hsearch] at hcompletion
    have hroute : Route.ofPath? done.path = some .taskDone := by decide
    have hrow : Store.row? ⟨[row], 1⟩ 1 = some row := rfl
    rw [handle_post rfl hroute rfl, respond_taskDone rfl,
      run_completeTask (by decide) (by decide) (by decide) hrow, hcompletion]
    decide +kernel
  · refine ⟨⟨none, none, 738911, by decide, by decide⟩,
      ⟨"POST", "/api/task", some "application/json", [],
        "\x7b\"date\":\"99990601\",\"title\":\"rent\",\"repeat\":\"y\"\x7d"⟩,
      ⟨"POST", "/api/task/done?id=1", none, [], ""⟩,
      ⟨[⟨1, "99990601", "rent", "", "y"⟩], 1⟩, rfl, by decide, rfl, by decide, rfl, rfl,
      by decide +kernel, rfl, by decide, by decide, rfl, by decide +kernel⟩

end Service
end Agenda
