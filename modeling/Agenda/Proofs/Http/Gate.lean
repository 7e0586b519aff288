import Agenda.Proofs.Http.Serving
import Agenda.Proofs.Session.Cookie

/-!
# The gate

With a password set, a request that shows no valid token is one of a stranger. Such a request is
answered without a call of the store, and the same way at every time, apart from the token that a
right password is answered with. So strangers do not see what is stored and change nothing, in any
number of requests. The static files belong to how the service is set up: they are the same
whatever is stored.
-/

namespace Agenda
namespace Service

variable {settings : Settings} {now : Instant} {request : Request} {password : String}

/-- One of the cookie headers carries a token that is valid under the password. -/
def Arrival.ShowsToken (a : Arrival) (password : String) : Prop :=
  ∃ header ∈ a.request.cookies, ∃ token, Cookie.Carries header token ∧
    Token.verify token password a.now = true

/-- The password is set, and the request shows no valid token. -/
structure Arrival.IsStranger (a : Arrival) (password : String) : Prop where
  password_eq : a.settings.password = some password
  not_showsToken : ¬ a.ShowsToken password

theorem Arrival.showsToken_of_hasValidToken {a : Arrival}
    (h : hasValidToken password a.now a.request.cookies = true) : a.ShowsToken password := by
  obtain ⟨token, htoken, hvalid⟩ := List.any_eq_true.mp h
  obtain ⟨header, hheader, hcarries⟩ := List.mem_filterMap.mp htoken
  exact ⟨header, List.mem_of_mem_filter hheader, token, Cookie.token?_eq_some_iff.mp hcarries,
    hvalid⟩

theorem Arrival.IsStranger.isAuthorized_eq_false {a : Arrival} (h : a.IsStranger password) :
    isAuthorized a.settings a.now a.request = false := by
  rw [isAuthorized, h.password_eq, Bool.eq_false_iff]
  intro hvalid
  exact h.not_showsToken (showsToken_of_hasValidToken hvalid)

theorem Arrival.isStranger_of_empty {a : Arrival} (h : a.settings.password = some "") :
    a.IsStranger "" where
  password_eq := h
  not_showsToken := by
    rintro ⟨header, -, token, -, hvalid⟩
    simp [Token.verify] at hvalid

/-- The answer to a request that does not pass the gate. -/
def refusal (request : Request) : Response where
  status := 401
  contentType := some "text/plain; charset=utf-8"
  body := if request.method = "HEAD" then "" else "authentication required"

theorem exists_respond_nextDate_eq_done (settings : Settings) (request : Request) :
    ∃ response, ∀ now, respond settings now .nextDate request = .done response := by
  obtain ⟨response, hresponse⟩ := exists_nextDate_eq_done settings request
  unfold respond
  dsimp only
  generalize (if request.method = "HEAD" then "GET" else request.method) = method
  split
  · exact ⟨response, fun now => hresponse⟩
  · exact ⟨_, fun now => rfl⟩

theorem respond_signIn_cases (settings : Settings) (request : Request) :
    (∃ response, ∀ now, respond settings now .signIn request = .done response) ∨
      (request.method ≠ "HEAD" ∧ ∀ now,
        respond settings now .signIn request =
          .done (granted (settings.password.getD "") now)) := by
  by_cases hhead : request.method = "HEAD"
  · exact .inl ⟨_, fun now => respond_of_reading .signIn (.inr hhead)⟩
  · simp only [respond, if_neg hhead]
    split
    · exact (signIn_cases settings request).imp_right fun h => ⟨hhead, h⟩
    · exact .inl ⟨_, fun now => rfl⟩

/-- How a request is answered when it does not pass the gate. -/
inductive Blind (settings : Settings) (request : Request) : Prop
  | fixed (response : Response) (h : ∀ now, isAuthorized settings now request = false →
      handle settings now request = .done response)
  | signsIn (hpath : request.path = "/api/signin")
      (h : ∀ now, handle settings now request = .done (granted (settings.password.getD "") now))

theorem handle_of_answer {response : Response}
    (h : answer settings now request = .done response) :
    handle settings now request =
      .done (if request.method = "HEAD" then response.withoutBody else response) := by
  unfold handle
  rw [h]
  split <;> rfl

theorem handle_gated {route : Route} (hroute : Route.ofPath? request.path = some route)
    (hgated : route.isGated = true) (hrefused : isAuthorized settings now request = false) :
    handle settings now request = .done (refusal request) := by
  have hanswer : answer settings now request = .done (.text 401 "authentication required") := by
    simp [answer, hroute, hgated, hrefused]
  rw [handle_of_answer hanswer, refusal]
  split <;> rfl

theorem handle_open {route : Route} (hroute : Route.ofPath? request.path = some route)
    (hopen : route.isGated = false) {response : Response}
    (h : respond settings now route request = .done response) :
    handle settings now request =
      .done (if request.method = "HEAD" then response.withoutBody else response) :=
  handle_of_answer (by simp [answer, hroute, hopen, h])

/-- Without a valid token, no request comes to a call of the store. -/
theorem blind (settings : Settings) (request : Request) : Blind settings request := by
  -- of the routes without the gate, only that of the sign-in looks at the clock
  cases hroute : Route.ofPath? request.path with
  | none => exact .fixed _ fun now _ => handle_of_answer (by rw [answer, hroute])
  | some route =>
    cases route with
    | signIn =>
      rcases respond_signIn_cases settings request with ⟨response, h⟩ | ⟨hhead, h⟩
      · exact .fixed _ fun now _ => handle_open hroute rfl (h now)
      · refine .signsIn (Route.path_eq_of_ofPath? hroute) fun now => ?_
        rw [handle_open hroute rfl (h now), if_neg hhead]
    | nextDate =>
      obtain ⟨response, h⟩ := exists_respond_nextDate_eq_done settings request
      exact .fixed _ fun now _ => handle_open hroute rfl (h now)
    | task | tasks | taskDone =>
      exact .fixed _ fun now hrefused => handle_gated hroute rfl hrefused

/-- The same request to a service with the same settings, perhaps at another time. -/
structure Arrival.Again (a b : Arrival) : Prop where
  settings_eq : b.settings = a.settings
  request_eq : b.request = a.request

/-- The responses are the same, or each holds the token that is issued at its time. -/
inductive Arrival.AnswersAlike (password : String) (a b : Arrival) : Response → Response → Prop
  | same (response : Response) : AnswersAlike password a b response response
  | granted (hpath : a.request.path = "/api/signin") :
    AnswersAlike password a b (granted password a.now) (granted password b.now)

theorem Arrival.Again.exists_scripts_eq_done {a b : Arrival} (hagain : a.Again b)
    (ha : a.IsStranger password) (hb : b.IsStranger password) :
    ∃ response response', a.script = .done response ∧ b.script = .done response' ∧
      a.AnswersAlike password b response response' := by
  have harefused := ha.isAuthorized_eq_false
  have hbrefused := hb.isAuthorized_eq_false
  unfold script
  rw [hagain.settings_eq, hagain.request_eq] at hbrefused ⊢
  cases blind a.settings a.request with
  | fixed response h => exact ⟨_, _, h _ harefused, h _ hbrefused, .same response⟩
  | signsIn hpath h =>
    rw [ha.password_eq, Option.getD_some] at h
    exact ⟨_, _, h _, h _, .granted hpath⟩

/-- Answers requests one after the other. Each is listed with its response. -/
def serveAll (s : Store) : List Arrival → Store × List (Arrival × Response)
  | [] => (s, [])
  | a :: rest =>
    let (s', response) := a.script.run s
    let (s'', log) := serveAll s' rest
    (s'', (a, response) :: log)

theorem serveAll_cons_of_done {a : Arrival} {response : Response} (h : a.script = .done response)
    (s : Store) (rest : List Arrival) :
    serveAll s (a :: rest) = ((serveAll s rest).1, (a, response) :: (serveAll s rest).2) := by
  rw [serveAll, h]
  rfl

/-- An exchange of one run and one of another are about the same request and say the same. -/
def Alike (password : String) (x y : Arrival × Response) : Prop :=
  x.1.Again y.1 ∧ x.1.AnswersAlike password y.1 x.2 y.2

theorem serveAll_alike {as bs : List Arrival} (hagain : List.Forall₂ Arrival.Again as bs)
    (has : ∀ a ∈ as, a.IsStranger password) (hbs : ∀ b ∈ bs, b.IsStranger password)
    (s t : Store) :
    (serveAll s as).1 = s ∧ (serveAll t bs).1 = t ∧
      List.Forall₂ (Alike password) (serveAll s as).2 (serveAll t bs).2 := by
  induction hagain with
  | nil => exact ⟨rfl, rfl, .nil⟩
  | @cons a b as bs hab _ ih =>
    rw [List.forall_mem_cons] at has hbs
    obtain ⟨response, response', ha, hb, halike⟩ := hab.exists_scripts_eq_done has.1 hbs.1
    obtain ⟨hs, ht, hlog⟩ := ih has.2 hbs.2
    rw [serveAll_cons_of_done ha, serveAll_cons_of_done hb]
    exact ⟨hs, ht, .cons ⟨hab, halike⟩ hlog⟩

/-- A path of a route behind the gate. -/
def IsGatedPath (path : String) : Prop :=
  path = "/api/task" ∨ path = "/api/tasks" ∨ path = "/api/task/done"

theorem IsGatedPath.exists_route {path : String} (h : IsGatedPath path) :
    ∃ route, Route.ofPath? path = some route ∧ route.isGated = true := by
  rcases h with rfl | rfl | rfl
  · exact ⟨.task, rfl, rfl⟩
  · exact ⟨.tasks, rfl, rfl⟩
  · exact ⟨.taskDone, rfl, rfl⟩

theorem Arrival.IsStranger.run_script {a : Arrival} (h : a.IsStranger password)
    (hpath : IsGatedPath a.request.path) (s : Store) : a.script.run s = (s, refusal a.request) := by
  obtain ⟨route, hroute, hgated⟩ := hpath.exists_route
  rw [script, handle_gated hroute hgated h.isAuthorized_eq_false]
  rfl

/-- Strangers learn nothing and change nothing. In two runs over the same requests, from any two
stores and at any times, the responses are the same apart from tokens that are issued, and the
stores stay as they are. What is behind the gate is refused with one text; and under the empty
password it is refused to all. -/
theorem strangers_see_nothing (password : String) :
    (∀ (s t : Store) (as bs : List Arrival), List.Forall₂ Arrival.Again as bs →
      (∀ a ∈ as, a.IsStranger password) → (∀ b ∈ bs, b.IsStranger password) →
      (serveAll s as).1 = s ∧ (serveAll t bs).1 = t ∧
        List.Forall₂ (Alike password) (serveAll s as).2 (serveAll t bs).2) ∧
    (∀ (s : Store) (a : Arrival), a.IsStranger password → IsGatedPath a.request.path →
      a.script.run s = (s, refusal a.request)) ∧
    (∀ (s : Store) (a : Arrival), a.settings.password = some "" → IsGatedPath a.request.path →
      a.script.run s = (s, refusal a.request)) := by
  refine ⟨?_, ?_, ?_⟩
  · intro s t as bs hagain has hbs
    exact serveAll_alike hagain has hbs s t
  · intro s a hstranger hpath
    exact hstranger.run_script hpath s
  · intro s a hempty hpath
    exact (Arrival.isStranger_of_empty hempty).run_script hpath s

/-- The tasks and a page are asked for twice with a token that names no second. -/
theorem strangers_see_nothing_secret : ∃ (s : Store) (early late : List Arrival),
    s.rows = [⟨1, "20240209", "rent", "", ""⟩] ∧
    (∀ a ∈ early ++ late, a.IsStranger "secret" ∧ a.request.cookies = ["lang=en; token=7"]) ∧
    early.map (fun a => a.request.target) = ["/api/tasks", "/index.html"] ∧
    List.Forall₂ Arrival.Again early late ∧
    early.map (fun a => a.now.unix) = [0, 1] ∧ late.map (fun a => a.now.unix) = [60, 90] ∧
    (serveAll s early).1 = s ∧ (serveAll Store.empty late).1 = Store.empty ∧
    List.Forall₂ (Alike "secret") (serveAll s early).2 (serveAll Store.empty late).2 ∧
    (serveAll s early).2.map Prod.snd =
      [⟨401, some "text/plain; charset=utf-8", "authentication required"⟩,
        ⟨200, some "text/html", "<h1>tasks</h1>"⟩] := by
  let page : Response := ⟨200, some "text/html", "<h1>tasks</h1>"⟩
  let settings : Settings := ⟨some "secret", some fun _ => page, 738911, by decide, by decide⟩
  let ask (target : String) (now : Instant) : Arrival :=
    ⟨settings, now, "GET", target, none, ["lang=en; token=7"], ""⟩
  have hstranger (target : String) (now : Instant) : (ask target now).IsStranger "secret" := by
    refine ⟨rfl, ?_⟩
    rintro ⟨header, hheader, token, hcarries, hvalid⟩
    obtain rfl := List.mem_singleton.mp hheader
    have htoken : Cookie.token? "lang=en; token=7" = some "7" := by decide +kernel
    rw [Cookie.token?_eq_some_iff.mpr hcarries] at htoken
    cases htoken
    exact absurd hvalid (by simp [Token.verify, Token.splitAt?])
  let s : Store := ⟨[⟨1, "20240209", "rent", "", ""⟩], 1⟩
  let early := [ask "/api/tasks" .epoch, ask "/index.html" ⟨Day.epoch, 1, 0⟩]
  let late := [ask "/api/tasks" ⟨Day.epoch, 60, 0⟩, ask "/index.html" ⟨Day.epoch, 90, 500000000⟩]
  have hagain : List.Forall₂ Arrival.Again early late := .cons ⟨rfl, rfl⟩ (.cons ⟨rfl, rfl⟩ .nil)
  have hearly : ∀ a ∈ early, a.IsStranger "secret" := by simp [early, hstranger]
  have hlate : ∀ a ∈ late, a.IsStranger "secret" := by simp [late, hstranger]
  obtain ⟨hruns, hgated, -⟩ := strangers_see_nothing "secret"
  obtain ⟨hkept, hempty, hlog⟩ := hruns s Store.empty early late hagain hearly hlate
  have hrefused := hgated s (ask "/api/tasks" .epoch) (hstranger _ _) (.inr (.inl (by decide)))
  have hanswers : (serveAll s early).2.map Prod.snd =
      [⟨401, some "text/plain; charset=utf-8", "authentication required"⟩, page] := by
    simp only [early, serveAll, hrefused]
    decide +kernel
  refine ⟨s, early, late, rfl, ?_, rfl, hagain, by decide, by decide, hkept, hempty, hlog, hanswers⟩
  simp [early, late, hstranger, ask]

end Service
end Agenda
