import Agenda.Text.Blank
import Agenda.Text.Numeral

/-!
# Configuration

The settings of the service, each from a variable. Values are trimmed, a blank value counts as
not set, and a port that is no port number counts as not set as well.
-/

namespace Agenda

open Text

structure Config where
  port : Nat
  dbFile : String
  password : Option String
  webDir : String
deriving DecidableEq, Repr

namespace Config

def defaultPort : Nat := 7540

def defaultDbFile : String := "scheduler.db"

def defaultWebDir : String := "web"

/-- The trimmed value of a variable, when it is not blank. -/
def setting? (lookup : String → Option String) (name : String) : Option String :=
  ((lookup name).map trim).filter (· ≠ "")

/-- A port number from 1 to 65535. -/
def port? (raw : String) : Option Nat := (readNat? 65535 raw.toList).filter (0 < ·)

def ofLookup (lookup : String → Option String) : Config where
  port := ((setting? lookup "TODO_PORT").bind port?).getD defaultPort
  dbFile := (setting? lookup "TODO_DBFILE").getD defaultDbFile
  password := setting? lookup "TODO_PASSWORD"
  webDir := (setting? lookup "TODO_WEBDIR").getD defaultWebDir

end Config

end Agenda
