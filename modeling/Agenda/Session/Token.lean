import Agenda.Calendar.Instant
import Agenda.Digest.Hmac
import Agenda.Text.Hex
import Agenda.Text.Numeral
import Agenda.Text.Utf8

/-!
# Session tokens

A token names the second at which it expires, and carries a keyed digest of that second behind a
digest of the password, with the password as key. It is valid under the same password before it
expires. Of the moments at which a token is issued and shown only the whole seconds count. Reading
is more liberal than writing: the second may have a plus sign and leading zeros, and the digest
capital letters.
-/

namespace Agenda

open Text

def bytesOf (s : String) : List UInt8 := utf8Bytes s.toList

def passwordHash (password : String) : String :=
  String.ofList (hexOfBytes (Sha256.hash (bytesOf password)))

/-- The candidate is the configured password; an empty candidate never is. -/
def checkPassword (candidate configured : String) : Bool :=
  candidate ≠ "" &&
    Hmac.tag (bytesOf configured) (bytesOf candidate) ==
      Hmac.tag (bytesOf configured) (bytesOf configured)

namespace Token

/-- The seconds for which a token is valid. -/
def lifetime : Int := 8 * 60 * 60

/-- The keyed digest that a token of the password carries when it expires at the second. -/
def signature (password : String) (expiry : Int) : List UInt8 :=
  Hmac.tag (bytesOf password)
    (utf8Bytes ((passwordHash password).toList ++ ':' :: decimal expiry))

def issue (password : String) (now : Instant) : String :=
  let expiry := now.unix + lifetime
  String.ofList (decimal expiry ++ '.' :: hexOfBytes (signature password expiry))

/-- Cuts a text at its first occurrence of a character. -/
def splitAt? (separator : Char) (s : List Char) : Option (List Char × List Char) :=
  match s.dropWhile (· != separator) with
  | [] => none
  | _ :: rest => some (s.takeWhile (· != separator), rest)

def verify (token password : String) (now : Instant) : Bool :=
  if password = "" then false
  else
    match splitAt? '.' token.toList with
    | none => false
    | some (expiry, digest) =>
      match (readInt64 expiry).value?, bytesOfHex? digest with
      | some expiry, some digest => now.unix < expiry && digest == signature password expiry
      | _, _ => false

end Token

end Agenda
