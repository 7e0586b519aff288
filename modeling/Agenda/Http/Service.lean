import Agenda.Http.Form
import Agenda.Http.MediaType
import Agenda.Http.Message
import Agenda.Session.Cookie
import Agenda.Store.Script

/-!
# The service

Each request is answered by a script of store calls. With a password set, the routes that touch
tasks answer only requests with a cookie that holds a valid token; that gate comes before
everything else, even before the question whether the route knows the method. A request with the
method HEAD is answered as one with GET, without the body. Every path that is no route belongs to
the files of a directory, when there is one.
-/

namespace Agenda

open Text

/-- What the service is set up with: a password, or none for open access, the answers of the
directory with static files, or none without such a directory, and the present day. The files do
not depend on what is stored: the file of the database does not lie in that directory. -/
structure Settings where
  password : Option String
  files : Option (Request → Response)
  today : Day

inductive Route
  | signIn
  | nextDate
  | task
  | tasks
  | taskDone
deriving DecidableEq, Repr

namespace Route

def ofPath? (path : String) : Option Route :=
  if path = "/api/signin" then some signIn
  else if path = "/api/nextdate" then some nextDate
  else if path = "/api/task" then some task
  else if path = "/api/tasks" then some tasks
  else if path = "/api/task/done" then some taskDone
  else none

/-- The route touches tasks. -/
def isGated : Route → Bool
  | signIn | nextDate => false
  | task | tasks | taskDone => true

end Route

namespace Service

/-- The bytes of a header that can be looked at: printable ASCII and tabs. -/
def isVisible (header : String) : Bool :=
  header.toList.all fun c => c = '\t' || (0x20 ≤ c.toNat && c.toNat ≤ 0x7E)

/-- One of the cookie headers holds a token that is valid under the password. -/
def hasValidToken (password : String) (now : Instant) (cookies : List String) : Bool :=
  ((cookies.filter isVisible).filterMap Cookie.token?).any fun token =>
    Token.verify token password now

def isAuthorized (settings : Settings) (now : Instant) (request : Request) : Bool :=
  match settings.password with
  | none => true
  | some password => hasValidToken password now request.cookies

def duplicateField (name : String) : Response :=
  .text 400 ("Failed to deserialize query string: duplicate field \x60" ++ name ++ "\x60")

/-- Goes on with the texts of the query, unless one is given twice. -/
def withQuery (names : List String) (request : Request) (next : Fields → Script Response) :
    Script Response :=
  match Form.read names request.query with
  | .error name => .done (duplicateField name)
  | .ok fields => next fields

def maxBodyBytes : Nat := 2097152

/-- The body is declared as JSON and is not too long. -/
def isReadable (request : Request) : Bool :=
  request.contentType.any MediaType.isJson && request.body.utf8ByteSize ≤ maxBodyBytes

/-- Goes on with the texts of a JSON body. -/
def withBody (names : List String) (request : Request) (next : Fields → Script Response) :
    Script Response :=
  if isReadable request then
    match Json.readRecord names request.body with
    | none => .done (.badRequest "bad json")
    | some fields => next fields
  else .done (.badRequest "bad json")

/-- Goes on with the trimmed id of the query, which must not be blank. -/
def withId (request : Request) (next : String → Script Response) : Script Response :=
  withQuery ["id"] request fun fields =>
    let id := trim (textOf fields "id")
    if id = "" then .done (.badRequest "id required") else next id

def ofOutcome : Except StoreError Unit → Script Response
  | .error e => .done (.ofStoreError e)
  | .ok () => .done .done

def signIn (settings : Settings) (now : Instant) (request : Request) : Script Response :=
  withBody ["password"] request fun fields =>
    let configured := settings.password.getD ""
    if checkPassword (textOf fields "password") configured then
      .done (.json 200 (.object [("token", .text (Token.issue configured now))]))
    else .done (.failure 401 "wrong password")

def answerNextDate (reference : Day) (date rule : String) : Response :=
  if trim date = "" ∨ trim rule = "" then .text 400 "date/repeat required"
  else
    match Agenda.nextDate reference date rule with
    | .error e => .text 400 e.message
    | .ok next => .text 200 (next ++ "\n")

def nextDate (settings : Settings) (request : Request) : Script Response :=
  withQuery ["now", "date", "repeat"] request fun fields =>
    let now := trim (textOf fields "now")
    match if now = "" then some settings.today else Day.ofText? now with
    | none => .done (.text 400 "bad now")
    | some reference =>
      .done (answerNextDate reference (textOf fields "date") (textOf fields "repeat"))

def addTask (settings : Settings) (request : Request) : Script Response :=
  withBody Task.fieldNames request fun fields =>
    match (Task.ofFields fields).prepare settings.today with
    | .error e => .done (.ofTaskError e)
    | .ok task => .call (.add task) fun (id : Nat) =>
      .done (.json 200 (.object [("id", .number id)]))

def getTask (request : Request) : Script Response :=
  withId request fun id =>
    .call (.get id) fun (answer : Except StoreError Task) =>
      match answer with
      | .error e => .done (.ofStoreError e)
      | .ok task => .done (.json 200 task.toJson)

def editTask (settings : Settings) (request : Request) : Script Response :=
  withBody Task.fieldNames request fun fields =>
    let id := trim (textOf fields "id")
    if id = "" then .done (.badRequest "id required")
    else
      match { Task.ofFields fields with id := id }.prepare settings.today with
      | .error e => .done (.ofTaskError e)
      | .ok task => .call (.update task) ofOutcome

def deleteTask (request : Request) : Script Response :=
  withId request fun id => .call (.delete id) ofOutcome

/-- Looks the task up in one call and removes or moves it in another. -/
def completeTask (request : Request) : Script Response :=
  withId request fun id =>
    .call (.get id) fun (answer : Except StoreError Task) =>
      match answer with
      | .error e => .done (.ofStoreError e)
      | .ok task =>
        match task.completion with
        | .error e => .done (.ofTaskError e)
        | .ok .delete => .call (.delete id) ofOutcome
        | .ok (.reschedule date) => .call (.setDate id date) ofOutcome

def listTasks (request : Request) : Script Response :=
  withQuery ["search", "limit"] request fun fields =>
    .call (.list (Query.parse (textOf fields "search")) (Query.limit (textOf? fields "limit")))
      fun (answer : Except StoreError (List Task)) =>
        match answer with
        | .error e => .done (.ofStoreError e)
        | .ok tasks =>
          .done (.json 200 (.object [("tasks", .array (tasks.map Task.toSortedJson))]))

/-- Answers a request that has passed the gate. -/
def respond (settings : Settings) (now : Instant) (route : Route) (request : Request) :
    Script Response :=
  let method := if request.method = "HEAD" then "GET" else request.method
  match route with
  | .signIn =>
    if method = "POST" then signIn settings now request else .done (.empty 405)
  | .nextDate =>
    if method = "GET" then nextDate settings request else .done (.empty 405)
  | .task =>
    if method = "POST" then addTask settings request
    else if method = "GET" then getTask request
    else if method = "PUT" then editTask settings request
    else if method = "DELETE" then deleteTask request
    else .done (.empty 405)
  | .tasks =>
    if method = "GET" then listTasks request else .done (.empty 405)
  | .taskDone =>
    if method = "POST" then completeTask request else .done (.empty 405)

/-- Answers a request that no route claims. -/
def answerFile (settings : Settings) (request : Request) : Response :=
  match settings.files with
  | none => .empty 404
  | some files => files request

def answer (settings : Settings) (now : Instant) (request : Request) : Script Response :=
  match Route.ofPath? request.path with
  | none => .done (answerFile settings request)
  | some route =>
    if route.isGated && !isAuthorized settings now request then
      .done (.text 401 "authentication required")
    else respond settings now route request

/-- The script that answers a request. -/
def handle (settings : Settings) (now : Instant) (request : Request) : Script Response :=
  if request.method = "HEAD" then (answer settings now request).map Response.withoutBody
  else answer settings now request

end Service

end Agenda
