import Agenda.Proofs.Cli.Options

/-!
# Options in any order and spelling

Settings that are given once each make the same command in every order and every spelling, and what
a command prints depends on it alone, but for the time that a report shows.
-/

namespace Agenda
namespace Cli

open Setting

variable {host : Host} {date rule raw : String} {reference : Day} {now : Option Day}
  {verbose color : Bool}

theorem runNext_of_error (host : Host) {e : NextDateError}
    (h : NextDate.evaluate (now.getD host.today) date rule = .error e) :
    runNext host date rule now verbose color =
      ⟨1, "",
        traceText host (now.getD host.today) date rule ++ "error: " ++ e.message ++ "\n"⟩ := by
  simp only [runNext, h]

theorem runNext_of_ok (host : Host) {n : NextDate}
    (h : NextDate.evaluate (now.getD host.today) date rule = .ok n) :
    runNext host date rule now verbose color =
      ⟨0, if verbose then ofLines (reportLines color host.elapsed n) else n.text ++ "\n",
        traceText host (now.getD host.today) date rule⟩ := by
  simp only [runNext, h]
  split_ifs <;> rfl

theorem code_runNext (host : Host) (date rule : String) (now : Option Day) (verbose color : Bool) :
    (runNext host date rule now verbose color).code = 0 ∧
        (∃ next, nextDate (now.getD host.today) date rule = .ok next) ∨
      (runNext host date rule now verbose color).code = 1 ∧
        ∃ e, nextDate (now.getD host.today) date rule = .error e := by
  unfold nextDate
  cases h : NextDate.evaluate (now.getD host.today) date rule with
  | error e =>
    rw [runNext_of_error host h]
    exact .inr ⟨rfl, e, rfl⟩
  | ok n =>
    rw [runNext_of_ok host h]
    exact .inl ⟨rfl, n.text, rfl⟩

theorem traceText_elapsed (elapsed : String) (reference : Day) :
    traceText { host with elapsed := elapsed } reference date rule =
      traceText host reference date rule :=
  rfl

theorem runNext_elapsed (host : Host) (date rule : String) (now : Option Day)
    (verbose color : Bool) (elapsed : String) :
    (runNext { host with elapsed := elapsed } date rule now verbose color).code =
        (runNext host date rule now verbose color).code ∧
      (runNext { host with elapsed := elapsed } date rule now verbose color).stderr =
        (runNext host date rule now verbose color).stderr ∧
      (verbose = false →
        runNext { host with elapsed := elapsed } date rule now verbose color =
          runNext host date rule now verbose color) := by
  cases h : NextDate.evaluate (now.getD host.today) date rule with
  | error e =>
    rw [runNext_of_error host h, runNext_of_error { host with elapsed := elapsed } h,
      traceText_elapsed]
    exact ⟨rfl, rfl, fun _ => rfl⟩
  | ok n =>
    rw [runNext_of_ok host h, runNext_of_ok { host with elapsed := elapsed } h,
      traceText_elapsed]
    refine ⟨rfl, rfl, ?_⟩
    rintro rfl
    rw [if_neg Bool.false_ne_true, if_neg Bool.false_ne_true]

theorem run_of_perm {gs : List Setting} {args : List String} {color : Option Bool}
    (hreference : Day.ofText? raw = some reference)
    (hperm : gs.Perm (once date rule raw verbose color)) (hgiven : AreGivenBy gs args) :
    run host ("next" :: args) =
      .exit (runNext host date rule (some reference) verbose (color.getD host.color)) := by
  rw [run, Options.parse_of_make hgiven.areTakenFrom (make_of_perm hreference hperm)]

/-- For all values, with or without a report, with or without one switch for the colours, the
command `next` ends with one code and prints one text and one complaint, in whatever order the
options stand and however each of them is spelled; only a report tells one time from another. It
ends with 0 when there is a next date, and with 1 when there is none. -/
theorem next_any_order (hreference : reference.date.IsSpelledBy raw.toList) (date rule : String)
    (verbose : Bool) (color : Option Bool) (host : Host) :
    ∃ (code : Nat) (stdout : String → String) (stderr : String),
      (∀ elapsed gs args, List.Perm gs (once date rule raw verbose color) → AreGivenBy gs args →
        run { host with elapsed := elapsed } ("next" :: args) =
          .exit ⟨code, stdout elapsed, stderr⟩) ∧
      (verbose = false → ∀ elapsed, stdout elapsed = stdout host.elapsed) ∧
      (code = 0 ∨ code = 1) ∧
      (code = 0 ↔ ∃ next, nextDate reference date rule = .ok next) := by
  have hread := Day.ofText?_eq_some_iff_isSpelledBy.mpr hreference
  let outcome (elapsed : String) : Outcome :=
    runNext { host with elapsed := elapsed } date rule (some reference) verbose
      (color.getD host.color)
  have htime : ∀ elapsed, (outcome elapsed).code = (outcome host.elapsed).code ∧
      (outcome elapsed).stderr = (outcome host.elapsed).stderr ∧
      (verbose = false → outcome elapsed = outcome host.elapsed) :=
    runNext_elapsed host date rule (some reference) verbose (color.getD host.color)
  refine ⟨(outcome host.elapsed).code, fun elapsed => (outcome elapsed).stdout,
    (outcome host.elapsed).stderr, ?_, ?_, ?_⟩
  · intro elapsed gs args hperm hgiven
    rw [run_of_perm hread hperm hgiven, ← (htime elapsed).1, ← (htime elapsed).2.1]
  · intro hverbose elapsed
    exact congrArg Outcome.stdout ((htime elapsed).2.2 hverbose)
  · rcases code_runNext host date rule (some reference) verbose (color.getD host.color) with
      ⟨hcode, next, hnext⟩ | ⟨hcode, e, he⟩
    · rw [Option.getD_some] at hnext
      exact ⟨.inl hcode, fun _ => ⟨next, hnext⟩, fun _ => hcode⟩
    · rw [Option.getD_some] at he
      refine ⟨.inr hcode, fun hzero => ?_, fun ⟨next, hnext⟩ => ?_⟩
      · exact absurd (hzero.symm.trans hcode) Nat.zero_ne_one
      · cases hnext.symm.trans he

/-- An anchor and a rule that look like options are values in every order and spelling. So are a
date and a rule, of which the next date is told. -/
theorem next_any_order_lookAlikes : ∃ (host : Host) (refused told : Outcome),
    (⟨2024, 1, 26⟩ : Date).IsSpelledBy "20240126".toList ∧
    run host ["next", "-d", "--repeat", "--repeat=-v=--now", "-n", "20240126", "-v",
      "--no-color"] = .exit refused ∧
    run host ["next", "--no-color", "--now=20240126", "--verbose", "-r", "-v=--now",
      "--date=--repeat"] = .exit refused ∧
    refused = ⟨1, "", "error: bad date '--repeat' (expected YYYYMMDD)\n"⟩ ∧
    run host ["next", "-d", "20240126", "--repeat=d 7", "-n", "20240126"] = .exit told ∧
    run host ["next", "--now=20240126", "-r", "d 7", "--date", "20240126"] = .exit told ∧
    told = ⟨0, "20240202\n", ""⟩ := by
  let reference : Day := ⟨738911, by decide, by decide⟩
  let host : Host := ⟨reference, fun _ => none, fun _ => false, false, ""⟩
  have hreference : reference.date.IsSpelledBy "20240126".toList :=
    ⟨by decide, by decide, by decide⟩
  obtain ⟨code, stdout, stderr, hrun, -⟩ :=
    next_any_order hreference "--repeat" "-v=--now" true (some false) host
  have hshort := hrun "" [.date "--repeat", .repeatRule "-v=--now", .now "20240126", .verbose,
      .color false]
    ["-d", "--repeat", "--repeat=-v=--now", "-n", "20240126", "-v", "--no-color"] (by decide)
    ⟨_, .cons (.behind rfl (.inr rfl)) (.cons (.inline rfl) (.cons (.behind rfl (.inr rfl))
      (.cons (.alone rfl (.inr rfl)) (.cons (.alone rfl (.inl rfl)) .nil)))), rfl⟩
  have hlong := hrun "" [.color false, .now "20240126", .verbose, .repeatRule "-v=--now",
      .date "--repeat"]
    ["--no-color", "--now=20240126", "--verbose", "-r", "-v=--now", "--date=--repeat"] (by decide)
    ⟨_, .cons (.alone rfl (.inl rfl)) (.cons (.inline rfl) (.cons (.alone rfl (.inl rfl))
      (.cons (.behind rfl (.inr rfl)) (.cons (.inline rfl) .nil)))), rfl⟩
  have hrefused : (⟨code, stdout "", stderr⟩ : Outcome) =
      ⟨1, "", "error: bad date '--repeat' (expected YYYYMMDD)\n"⟩ :=
    Verdict.exit.inj (hshort.symm.trans (by rfl))
  obtain ⟨code', stdout', stderr', hrun', -⟩ :=
    next_any_order hreference "20240126" "d 7" false none host
  have hshort' := hrun' "" [.date "20240126", .repeatRule "d 7", .now "20240126"]
    ["-d", "20240126", "--repeat=d 7", "-n", "20240126"] (by decide)
    ⟨_, .cons (.behind rfl (.inr rfl)) (.cons (.inline rfl) (.cons (.behind rfl (.inr rfl)) .nil)),
      rfl⟩
  have hlong' := hrun' "" [.now "20240126", .repeatRule "d 7", .date "20240126"]
    ["--now=20240126", "-r", "d 7", "--date", "20240126"] (by decide)
    ⟨_, .cons (.inline rfl) (.cons (.behind rfl (.inr rfl)) (.cons (.behind rfl (.inl rfl)) .nil)),
      rfl⟩
  have htold : (⟨code', stdout' "", stderr'⟩ : Outcome) = ⟨0, "20240202\n", ""⟩ :=
    Verdict.exit.inj (hshort'.symm.trans (by decide +kernel))
  exact ⟨host, _, _, hreference, hshort, hlong, hrefused, hshort', hlong', htold⟩

end Cli
end Agenda
