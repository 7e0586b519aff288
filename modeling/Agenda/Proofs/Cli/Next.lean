import Agenda.Proofs.Cli.Options
import Agenda.Proofs.Http.NextDate

/-!
# One answer at the command line and at the endpoint

A value behind a short or a long option is taken as it is, even if it looks like an option. So the
command `next` and the endpoint come to the same evaluation, and both show its result: the date, or
the message of the error.
-/

namespace Agenda
namespace Cli

open Text

variable {host : Host} {raw date rule : String} {reference : Day}

/-- What is printed for the next date, or for the reason why there is none. -/
def Outcome.ofNextDate : Except NextDateError String → Outcome
  | .ok next => ⟨0, next ++ "\n", ""⟩
  | .error e => ⟨1, "", "error: " ++ e.message ++ "\n"⟩

theorem parse_next (color : Bool) (hreference : Day.ofText? raw = some reference) :
    Command.parse color ["next", "--now", raw, "--date", date, "--repeat", rule] =
      .ok (.next date rule (some reference) false color) := by
  have hgiven : Setting.AreGivenBy [.now raw, .date date, .repeatRule rule]
      ["--now", raw, "--date", date, "--repeat", rule] :=
    ⟨_, .cons (.behind rfl (.inl rfl)) (.cons (.behind rfl (.inl rfl))
      (.cons (.behind rfl (.inl rfl)) .nil)), rfl⟩
  have hperm : [Setting.now raw, .date date, .repeatRule rule].Perm
      (Setting.once date rule raw false none) :=
    (List.Perm.swap _ _ _).trans ((List.Perm.swap _ _ _).cons _)
  exact Options.parse_of_make hgiven.areTakenFrom (Setting.make_of_perm hreference hperm)

theorem runNext_eq (htrace : host.lookup traceVariable = none) (now : Option Day) (color : Bool) :
    runNext host date rule now false color =
      .ofNextDate (nextDate (now.getD host.today) date rule) := by
  have hsilent : traceText host (now.getD host.today) date rule = "" := by
    simp [traceText, htrace]
  rw [runNext, hsilent, nextDate]
  cases NextDate.evaluate (now.getD host.today) date rule with
  | error e => simp [Except.map, Outcome.ofNextDate]
  | ok n => rfl

theorem run_next (htrace : host.lookup traceVariable = none)
    (hreference : Day.ofText? raw = some reference) :
    run host ["next", "--now", raw, "--date", date, "--repeat", rule] =
      .exit (.ofNextDate (nextDate reference date rule)) := by
  rw [run, parse_next host.color hreference]
  dsimp only
  rw [runNext_eq htrace, Option.getD_some]

section Results

variable (result : Except NextDateError String)

theorem code_ofNextDate_ne : (Outcome.ofNextDate result).code ≠ 2 := by
  cases result <;> simp [Outcome.ofNextDate]

theorem prints_iff_answers (x : String) :
    ((Outcome.ofNextDate result).code = 0 ∧ (Outcome.ofNextDate result).stdout = x ++ "\n") ↔
      (Response.ofNextDate result).status = 200 ∧
        (Response.ofNextDate result).body = x ++ "\n" := by
  cases result <;> simp [Outcome.ofNextDate, Response.ofNextDate, Response.text]

theorem complains_iff_refuses (message : String) :
    ((Outcome.ofNextDate result).code = 1 ∧
        (Outcome.ofNextDate result).stderr = "error: " ++ message ++ "\n") ↔
      (Response.ofNextDate result).status = 400 ∧
        (Response.ofNextDate result).body = message := by
  cases result with
  | ok next => simp [Outcome.ofNextDate, Response.ofNextDate, Response.text]
  | error e =>
    simp only [Outcome.ofNextDate, Response.ofNextDate, Response.text, true_and]
    rw [String.append_left_inj, String.append_right_inj]

end Results

/-- For the text of a day and two texts that are not blank, the command line and the endpoint, asked
with any encodings of the three texts, give one answer: the command prints a date and a newline just
when the endpoint answers them, it prints a message as its error just when the endpoint refuses with
this message, and it finds nothing wrong with its arguments. -/
theorem next_eq_endpoint {x : Date} {settings : Settings} {time : Instant} {request : Request}
    {query : List Char} (htrace : host.lookup traceVariable = none)
    (hreference : x.IsSpelledBy raw.toList) (hdate : ¬ AllBlank date.toList)
    (hrule : ¬ AllBlank rule.toList) (hmethod : request.method = "GET")
    (htarget : request.target.toList = "/api/nextdate?".toList ++ query)
    (hquery : Service.AsksFor query raw date rule) :
    ∃ outcome response,
      run host ["next", "--now", raw, "--date", date, "--repeat", rule] = .exit outcome ∧
      Service.handle settings time request = .done response ∧
      (∀ next, (outcome.code = 0 ∧ outcome.stdout = next ++ "\n") ↔
        response.status = 200 ∧ response.body = next ++ "\n") ∧
      (∀ message, (outcome.code = 1 ∧ outcome.stderr = "error: " ++ message ++ "\n") ↔
        response.status = 400 ∧ response.body = message) ∧
      outcome.code ≠ 2 := by
  obtain ⟨reference, rfl⟩ := hreference.exists_date_eq
  have hread := Day.ofText?_eq_some_iff_isSpelledBy.mpr hreference
  exact ⟨_, _, run_next htrace hread,
    Service.handle_nextDate hmethod htarget hquery hread hdate hrule,
    prints_iff_answers _, complains_iff_refuses _, code_ofNextDate_ne _⟩

/-- An anchor that looks like an option is no date, and both say so. Both tell the date a week after
an anchor that is one. -/
theorem next_eq_endpoint_option : ∃ (host : Host) (settings : Settings) (bad good : Request),
    host.lookup traceVariable = none ∧ Date.IsSpelledBy ⟨2024, 1, 26⟩ "20240126".toList ∧
    bad.target = "/api/nextdate?date=--now%3D%C3%A9%261%2B%25%20&repeat=d%207&now=20240126" ∧
    (∃ outcome,
      run host ["next", "--now", "20240126", "--date", "--now=é&1+% ", "--repeat", "d 7"] =
        .exit outcome ∧
      outcome.code = 1 ∧
      outcome.stderr = "error: bad date '--now=é&1+% ' (expected YYYYMMDD)\n") ∧
    (∃ response, Service.handle settings .epoch bad = .done response ∧
      response.status = 400 ∧ response.body = "bad date '--now=é&1+% ' (expected YYYYMMDD)") ∧
    good.target = "/api/nextdate?repeat=d%207&now=20240126&date=20240126" ∧
    (∃ outcome,
      run host ["next", "--now", "20240126", "--date", "20240126", "--repeat", "d 7"] =
        .exit outcome ∧
      outcome.code = 0 ∧ outcome.stdout = "20240202\n") ∧
    ∃ response, Service.handle settings .epoch good = .done response ∧
      response.status = 200 ∧ response.body = "20240202\n" := by
  let today : Day := ⟨738911, by decide, by decide⟩
  let host : Host := ⟨today, fun _ => none, fun _ => false, false, ""⟩
  let settings : Settings := ⟨none, none, today⟩
  let bad : Request := ⟨"GET",
    "/api/nextdate?date=--now%3D%C3%A9%261%2B%25%20&repeat=d%207&now=20240126", none, [], ""⟩
  let good : Request :=
    ⟨"GET", "/api/nextdate?repeat=d%207&now=20240126&date=20240126", none, [], ""⟩
  have hreference : Date.IsSpelledBy ⟨2024, 1, 26⟩ "20240126".toList :=
    ⟨by decide, by decide, by decide⟩
  have hbad : Service.AsksFor
      "date=--now%3D%C3%A9%261%2B%25%20&repeat=d%207&now=20240126".toList
      "20240126" "--now=é&1+% " "d 7" :=
    ⟨_, _, _, Form.encodes_percentEncode _, Form.encodes_percentEncode _,
      Form.encodes_percentEncode _,
      ["date=--now%3D%C3%A9%261%2B%25%20".toList, "repeat=d%207".toList, "now=20240126".toList],
      by decide, by decide⟩
  have hgood : Service.AsksFor "repeat=d%207&now=20240126&date=20240126".toList
      "20240126" "20240126" "d 7" :=
    ⟨_, _, _, Form.encodes_percentEncode _, Form.encodes_percentEncode _,
      Form.encodes_percentEncode _,
      ["repeat=d%207".toList, "now=20240126".toList, "date=20240126".toList],
      by decide, by decide⟩
  obtain ⟨refused, refusal, hrefused, hrefusal, -, hmessage, -⟩ :=
    @next_eq_endpoint host _ _ _ _ settings .epoch bad _ rfl hreference (by decide) (by decide) rfl
      (by decide) hbad
  obtain ⟨told, answer, htold, hanswer, hnext, -⟩ :=
    @next_eq_endpoint host _ _ _ _ settings .epoch good _ rfl hreference (by decide) (by decide)
      rfl (by decide) hgood
  obtain rfl : refused = ⟨1, "", "error: bad date '--now=é&1+% ' (expected YYYYMMDD)\n"⟩ :=
    Verdict.exit.inj (hrefused.symm.trans (by rfl))
  obtain rfl : told = ⟨0, "20240202\n", ""⟩ :=
    Verdict.exit.inj (htold.symm.trans (by decide +kernel))
  exact ⟨host, settings, bad, good, rfl, hreference, rfl, ⟨_, hrefused, rfl, rfl⟩,
    ⟨refusal, hrefusal, (hmessage "bad date '--now=é&1+% ' (expected YYYYMMDD)").mp ⟨rfl, rfl⟩⟩,
    rfl, ⟨_, htold, rfl, rfl⟩, answer, hanswer, (hnext "20240202").mp ⟨rfl, rfl⟩⟩

end Cli
end Agenda
