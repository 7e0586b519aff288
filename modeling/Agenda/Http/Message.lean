import Agenda.Store.Basic
import Agenda.Task.Record

/-!
# Requests and responses

A request as it is handed to the service, with one text for each cookie header, and a response
with its status, its media type and its body. The bytes of a file that is served are characters of
the response.
-/

namespace Agenda

/-- Headers and bodies come as bytes, and texts suffice for them. A header that is no text counts
for as little as one with a character outside printable ASCII. A body that is no text is refused as
bad JSON, like one with a control character in it, unless its stray bytes stand inside a text that
is skipped: then it is answered like one with letters in their place. -/
structure Request where
  method : String
  target : String
  contentType : Option String
  cookies : List String
  body : String
deriving Repr

namespace Request

/-- What follows the scheme of an absolute target. A target that begins with a slash is a path, so
that a scheme in its query is none. -/
def afterScheme? : List Char → Option (List Char)
  | '/' :: _ => none
  | target =>
    match target.dropWhile (· ≠ ':') with
    | ':' :: '/' :: '/' :: rest => some rest
    | _ => none

/-- The path and the query of the target, without scheme, authority and fragment. -/
def resource (r : Request) : List Char :=
  let target := r.target.toList.takeWhile (· ≠ '#')
  match afterScheme? target with
  | none => target
  | some rest => rest.dropWhile fun c => c ≠ '/' ∧ c ≠ '?'

def path (r : Request) : String := String.ofList (r.resource.takeWhile (· ≠ '?'))

def query (r : Request) : List Char := (r.resource.dropWhile (· ≠ '?')).drop 1

end Request

structure Response where
  status : Nat
  contentType : Option String
  body : String
deriving DecidableEq, Repr

namespace Response

def empty (status : Nat) : Response := ⟨status, none, ""⟩

def text (status : Nat) (body : String) : Response :=
  ⟨status, some "text/plain; charset=utf-8", body⟩

def json (status : Nat) (value : Json.Value) : Response :=
  ⟨status, some "application/json", value.write⟩

def failure (status : Nat) (message : String) : Response :=
  json status (.object [("error", .text message)])

def badRequest (message : String) : Response := failure 400 message

def done : Response := json 200 (.object [])

def withoutBody (r : Response) : Response := { r with body := "" }

def ofStoreError (e : StoreError) : Response :=
  match e with
  | .badId | .notFound | .badDate => badRequest e.message
  | .database _ => failure 500 e.message

def ofTaskError (e : TaskError) : Response := badRequest e.message

end Response

end Agenda
