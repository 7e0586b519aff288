import Agenda.Calendar.Day
import Agenda.Calendar.Gregorian
import Agenda.Calendar.Instant
import Agenda.Calendar.Month
import Agenda.Calendar.Text
import Agenda.Cli.Command
import Agenda.Cli.Help
import Agenda.Cli.Report
import Agenda.Cli.Run
import Agenda.Config
import Agenda.Digest.Hmac
import Agenda.Digest.Sha256
import Agenda.Fields
import Agenda.Http.Form
import Agenda.Http.MediaType
import Agenda.Http.Message
import Agenda.Http.Service
import Agenda.Json.Record
import Agenda.Json.Skip
import Agenda.Json.Token
import Agenda.Json.Value
import Agenda.Main
import Agenda.NextDate
import Agenda.Proofs.Calendar.Day
import Agenda.Proofs.Calendar.LeapDay
import Agenda.Proofs.Calendar.Month
import Agenda.Proofs.Calendar.Order
import Agenda.Proofs.Calendar.Text
import Agenda.Proofs.Calendar.WholeYears
import Agenda.Proofs.Cli.Documented
import Agenda.Proofs.Cli.Next
import Agenda.Proofs.Cli.Options
import Agenda.Proofs.Cli.Order
import Agenda.Proofs.Fields
import Agenda.Proofs.Http.Completion
import Agenda.Proofs.Http.Effect
import Agenda.Proofs.Http.Form
import Agenda.Proofs.Http.Gate
import Agenda.Proofs.Http.Interleaving
import Agenda.Proofs.Http.Listing
import Agenda.Proofs.Http.NextDate
import Agenda.Proofs.Http.Reading
import Agenda.Proofs.Http.Request
import Agenda.Proofs.Http.Serving
import Agenda.Proofs.Http.SignIn
import Agenda.Proofs.Json.Record
import Agenda.Proofs.Json.Skip
import Agenda.Proofs.Json.Text
import Agenda.Proofs.NextDate
import Agenda.Proofs.Rule.Anchor
import Agenda.Proofs.Rule.Canonical
import Agenda.Proofs.Rule.ClosedForm
import Agenda.Proofs.Rule.FirstProblem
import Agenda.Proofs.Rule.FixedWidth
import Agenda.Proofs.Rule.Flags
import Agenda.Proofs.Rule.Grammar
import Agenda.Proofs.Rule.Matching
import Agenda.Proofs.Rule.MonthlyHorizon
import Agenda.Proofs.Rule.Moving
import Agenda.Proofs.Rule.NextOccurrence
import Agenda.Proofs.Rule.Occurrence
import Agenda.Proofs.Rule.Rejection
import Agenda.Proofs.Rule.Scanning
import Agenda.Proofs.Rule.Stepping
import Agenda.Proofs.Session.Cookie
import Agenda.Proofs.Session.Token
import Agenda.Proofs.Store.DateSearch
import Agenda.Proofs.Store.Effect
import Agenda.Proofs.Store.History
import Agenda.Proofs.Store.Interleaving
import Agenda.Proofs.Store.Like
import Agenda.Proofs.Store.Listing
import Agenda.Proofs.Store.Reachable
import Agenda.Proofs.Store.TextSearch
import Agenda.Proofs.Store.WellKept
import Agenda.Proofs.Task.Agreement
import Agenda.Proofs.Task.Completion
import Agenda.Proofs.Task.Prepare
import Agenda.Proofs.Task.Record
import Agenda.Proofs.Task.Series
import Agenda.Proofs.Text.Ascii
import Agenda.Proofs.Text.Hex
import Agenda.Proofs.Text.Numeral
import Agenda.Proofs.Text.Utf8
import Agenda.Proofs.Text.Words
import Agenda.Rule.Basic
import Agenda.Rule.Parser
import Agenda.Rule.Printer
import Agenda.Rule.Search
import Agenda.Rule.Selection
import Agenda.Session.Cookie
import Agenda.Session.Token
import Agenda.Store.Basic
import Agenda.Store.Like
import Agenda.Store.Script
import Agenda.Task.Basic
import Agenda.Task.Query
import Agenda.Task.Record
import Agenda.Text.Blank
import Agenda.Text.Hex
import Agenda.Text.Numeral
import Agenda.Text.Utf8
