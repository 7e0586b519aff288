/-!
# Media types

A media type is a type, a slash, a subtype, and parameters behind semicolons. A plus sign inside
the subtype cuts off a suffix. A body is JSON when the type is `application` and the subtype or the
suffix is `json`, in any case of letters, and when the whole header is well formed.
-/

namespace Agenda
namespace MediaType

/-- The characters of names and of values without quotes. -/
def isToken (c : Char) : Bool := c.isAlphanum || "!#$%&'*+-.^_\x60|~".toList.contains c

def isQuotable (c : Char) : Bool := 0x20 ≤ c.toNat && c.toNat ≤ 0x7E

inductive Place
  | start
  | name
  | valueStart
  | value
  | quoteStart
  | quote
  | quoteEnd
deriving DecidableEq, Repr

namespace Place

/-- The place behind a character. Between quotes there is at least one character, which may be a
quote. -/
def next? : Place → Char → Option Place
  | start, c => if c = ' ' then some start else if isToken c then some name else none
  | name, c => if isToken c then some name else if c = '=' then some valueStart else none
  | valueStart, c => if c = '"' then some quoteStart else if isToken c then some value else none
  | value, c => if isToken c then some value else if c = ';' then some start else none
  | quoteStart, c => if isQuotable c then some quote else none
  | quote, c => if c = '"' then some quoteEnd else if isQuotable c then some quote else none
  | quoteEnd, c => if c = ' ' then some quoteEnd else if c = ';' then some start else none

def isEnd : Place → Bool
  | start | valueStart | value | quoteEnd => true
  | name | quoteStart | quote => false

end Place

def areParameters (s : List Char) : Bool :=
  (s.foldlM (fun place c => Place.next? place c) Place.start).any Place.isEnd

/-- The text is the lower-case word in any case of letters. -/
def isWord (word : String) (s : List Char) : Bool := s.map Char.toLower == word.toList

/-- The subtype or its suffix is `json`. A plus sign in front cuts off nothing. -/
def isJsonSubtype (s : List Char) : Bool :=
  let reversed := s.reverse
  match reversed.dropWhile (· ≠ '+') with
  | '+' :: c :: before =>
    isWord "json" (c :: before).reverse || isWord "json" (reversed.takeWhile (· ≠ '+')).reverse
  | _ => isWord "json" s

def isJson (header : String) : Bool :=
  let s := header.toList
  match s.dropWhile isToken with
  | '/' :: rest =>
    let subtype := rest.takeWhile isToken
    isWord "application" (s.takeWhile isToken) && isJsonSubtype subtype &&
      match rest.dropWhile isToken with
      | [] => true
      | ';' :: parameters => areParameters parameters
      | _ => false
  | _ => false

end MediaType
end Agenda
