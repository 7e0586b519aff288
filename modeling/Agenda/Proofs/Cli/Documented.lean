import Agenda.Proofs.Cli.Options

/-!
# Which arguments are accepted

Every list of arguments is read setting by setting up to its end, a request for help, or an
argument that is no option or lacks its value. So it makes a command just when it is settings that
make one, and is rejected when it neither does nor asks for help. The accepted lists are the
documented ones, but for two ways of saying something that nothing reads: a second reference day,
and a value for a switch.
-/

namespace Agenda
namespace Cli

open Setting

variable {o o' : Options} {g : Setting} {gs : List Setting} {arg : String}
  {piece args rest left : List String}

def IsHelp (arg : String) : Prop := ∃ inline, Flag.help.Heads arg inline

/-- The first argument is no option, or lacks its value. -/
inductive IsStuck : List String → Prop
  | unknown {arg : String} {rest : List String}
      (h : ∀ flag inline, ¬ Flag.Heads flag arg inline) : IsStuck (arg :: rest)
  | unfinished {flag : Flag} {arg : String} (htakes : flag.TakesValue)
      (h : flag.Heads arg none) : IsStuck [arg]

theorem exists_valued {flag : Flag} (htakes : flag.TakesValue) (value : String) :
    ∃ g : Setting, g.flag = flag ∧ g.value? = some value := by
  rcases htakes with rfl | rfl | rfl
  · exact ⟨.date value, rfl, rfl⟩
  · exact ⟨.repeatRule value, rfl, rfl⟩
  · exact ⟨.now value, rfl, rfl⟩

theorem first_cases (arg : String) (rest : List String) :
    (∃ g piece left, IsTakenFrom g piece ∧ arg :: rest = piece ++ left) ∨ IsHelp arg ∨
      IsStuck (arg :: rest) := by
  by_cases h : ∃ flag inline, Flag.Heads flag arg inline
  · obtain ⟨flag, inline, hheads⟩ := h
    have hswitch : ∀ g : Setting, g.flag = flag → g.value? = none →
        ∃ g piece left, IsTakenFrom g piece ∧ arg :: rest = piece ++ left := by
      rintro g rfl hvalue
      exact ⟨g, [arg], rest, isTakenFrom_iff.mpr ⟨_, _, _, rfl, hheads, .inl ⟨hvalue, rfl⟩⟩, rfl⟩
    have hvalued : flag.TakesValue →
        (∃ g piece left, IsTakenFrom g piece ∧ arg :: rest = piece ++ left) ∨
          IsStuck (arg :: rest) := by
      intro htakes
      cases inline with
      | some value =>
        obtain ⟨g, rfl, hvalue⟩ := exists_valued htakes value
        exact .inl ⟨g, [arg], rest, isTakenFrom_iff.mpr
          ⟨_, _, _, rfl, hheads, .inr ⟨value, hvalue, .inl ⟨rfl, rfl⟩⟩⟩, rfl⟩
      | none =>
        cases rest with
        | nil => exact .inr (.unfinished htakes hheads)
        | cons value rest =>
          obtain ⟨g, rfl, hvalue⟩ := exists_valued htakes value
          exact .inl ⟨g, [arg, value], rest, isTakenFrom_iff.mpr
            ⟨_, _, _, rfl, hheads, .inr ⟨value, hvalue, .inr ⟨rfl, rfl⟩⟩⟩, rfl⟩
    cases flag with
    | date => exact (hvalued (.inl rfl)).imp_right .inr
    | repeatRule => exact (hvalued (.inr (.inl rfl))).imp_right .inr
    | now => exact (hvalued (.inr (.inr rfl))).imp_right .inr
    | verbose => exact .inl (hswitch .verbose rfl rfl)
    | color => exact .inl (hswitch (.color true) rfl rfl)
    | noColor => exact .inl (hswitch (.color false) rfl rfl)
    | help => exact .inr (.inl ⟨_, hheads⟩)
  · exact .inr (.inr (.unknown fun flag inline hheads => h ⟨flag, inline, hheads⟩))

/-- Every list of arguments is settings, and then nothing, or a request for help, or arguments that
are stuck. -/
theorem exists_areTakenFrom_append (args : List String) :
    ∃ gs taken left, AreTakenFrom gs taken ∧ args = taken ++ left ∧
      (left = [] ∨ (∃ arg rest, left = arg :: rest ∧ IsHelp arg) ∨ IsStuck left) := by
  -- a setting takes one argument or two, so the induction is on their number
  induction hlength : args.length using Nat.strong_induction_on generalizing args with
  | _ n ih =>
    cases args with
    | nil => exact ⟨[], [], [], areTakenFrom_nil.mpr rfl, rfl, .inl rfl⟩
    | cons arg rest =>
      rcases first_cases arg rest with ⟨g, piece, left, hpiece, heq⟩ | hhelp | hstuck
      · have hshorter : left.length < n := by
          rw [← hlength, heq, List.length_append]
          have := List.length_pos_iff.mpr hpiece.ne_nil
          omega
        obtain ⟨gs, taken, left, htaken, rfl, hleft⟩ := ih _ hshorter left rfl
        refine ⟨g :: gs, piece ++ taken, left,
          areTakenFrom_cons.mpr ⟨_, _, hpiece, htaken, rfl⟩, ?_, hleft⟩
        rw [heq, List.append_assoc]
      · exact ⟨[], [], _, areTakenFrom_nil.mpr rfl, rfl, .inr (.inl ⟨_, _, rfl, hhelp⟩)⟩
      · exact ⟨[], [], _, areTakenFrom_nil.mpr rfl, rfl, .inr (.inr hstuck)⟩

namespace Options

theorem read_help (h : IsHelp arg) : read o (arg :: rest) = .ok .help := by
  obtain ⟨_, hheads⟩ := h
  simp only [read, (Flag.heads_iff.mp hheads).1]

theorem read_isStuck (h : IsStuck left) : ∃ e, ∀ o, read o left = .error e := by
  cases h with
  | @unknown arg rest hunknown =>
    have hnone : Flag.ofText? (cut arg).1 = none := by
      rw [Option.eq_none_iff_forall_ne_some]
      exact fun flag hflag => hunknown flag _ (Flag.heads_iff.mpr ⟨hflag, rfl⟩)
    exact ⟨.unknownOption arg, fun o => by simp only [read, hnone]⟩
  | @unfinished flag arg htakes hheads =>
    obtain ⟨hflag, hinline⟩ := Flag.heads_iff.mp hheads
    refine ⟨.missingValue flag, fun o => ?_⟩
    rcases htakes with rfl | rfl | rfl <;> simp only [read, hflag, hinline]

end Options

/-- The settings can be taken together: the anchor and the rule at most once, and every reference
day is a day. -/
structure Setting.Agree (gs : List Setting) : Prop where
  date : (valuesOf .date gs).length ≤ 1
  rule : (valuesOf .repeatRule gs).length ≤ 1
  readable : ∀ value ∈ valuesOf .now gs, (Day.ofText? value).isSome

/-- The arguments are settings that agree, and then an argument that asks for help. -/
def AsksForHelp (args : List String) : Prop :=
  ∃ gs taken arg rest, AreTakenFrom gs taken ∧ Agree gs ∧ args = taken ++ arg :: rest ∧ IsHelp arg

namespace Options

variable {byDefault : Bool}

theorem exists_toList_eq_iff {values : List String} :
    (∃ slot : Option String, slot.toList = values) ↔ values.length ≤ 1 := by
  constructor
  · rintro ⟨slot, rfl⟩
    cases slot <;> simp
  · intro h
    match values with
    | [] => exact ⟨none, rfl⟩
    | [value] => exact ⟨some value, rfl⟩

theorem exists_takeAll_start_iff :
    (∃ o', (start byDefault).takeAll gs = .ok o') ↔ Agree gs := by
  constructor
  · rintro ⟨o', h⟩
    obtain ⟨hdate, hrule, hread, -⟩ := takeAll_eq_ok_iff.mp h
    exact ⟨exists_toList_eq_iff.mp ⟨_, hdate⟩, exists_toList_eq_iff.mp ⟨_, hrule⟩, hread⟩
  · rintro ⟨hdate, hrule, hread⟩
    obtain ⟨date, hdate⟩ := exists_toList_eq_iff.mpr hdate
    obtain ⟨rule, hrule⟩ := exists_toList_eq_iff.mpr hrule
    exact ⟨⟨date, rule, _, _, _⟩, takeAll_eq_ok_iff.mpr ⟨hdate, hrule, hread, rfl, rfl, rfl⟩⟩

theorem read_cases (byDefault : Bool) (args : List String) :
    (∃ e, (start byDefault).read args = .error e) ∨
      (AsksForHelp args ∧ (start byDefault).read args = .ok .help) ∨
      ∃ gs o', AreTakenFrom gs args ∧ (start byDefault).takeAll gs = .ok o' ∧
        (start byDefault).read args = o'.toCommand := by
  obtain ⟨gs, taken, left, htaken, rfl, hleft⟩ := exists_areTakenFrom_append args
  rw [read_areTakenFrom htaken]
  cases htake : (start byDefault).takeAll gs with
  | error e => exact .inl ⟨e, rfl⟩
  | ok o' =>
    have hagree : Agree gs := exists_takeAll_start_iff.mp ⟨o', htake⟩
    rcases hleft with rfl | ⟨arg, rest, rfl, hhelp⟩ | hstuck
    · rw [List.append_nil]
      exact .inr (.inr ⟨gs, o', htaken, htake, rfl⟩)
    · exact .inr (.inl ⟨⟨gs, taken, arg, rest, htaken, hagree, rfl, hhelp⟩, read_help hhelp⟩)
    · obtain ⟨e, he⟩ := read_isStuck hstuck
      exact .inl ⟨e, he o'⟩

end Options

section Parse

variable {byDefault verbose color : Bool} {date rule : String} {now : Option Day}

theorem parse_eq_help_iff :
    Command.parse byDefault ("next" :: args) = .ok .help ↔ AsksForHelp args := by
  rw [Options.parse_eq]
  constructor
  · intro h
    rcases Options.read_cases byDefault args with ⟨e, he⟩ | ⟨hasks, -⟩ | ⟨gs, o', -, -, hcommand⟩
    · cases he.symm.trans h
    · exact hasks
    · obtain ⟨_, _, -, -, hnext⟩ := Options.toCommand_eq_ok_iff.mp (hcommand.symm.trans h)
      cases hnext
  · rintro ⟨gs, taken, arg, rest, htaken, hagree, rfl, hhelp⟩
    obtain ⟨o', htake⟩ := Options.exists_takeAll_start_iff.mpr hagree
    rw [Options.read_areTakenFrom htaken, htake]
    exact Options.read_help hhelp

/-- The accepted arguments are settings that make up the command, and nothing else. -/
theorem parse_eq_next_iff :
    Command.parse byDefault ("next" :: args) = .ok (.next date rule now verbose color) ↔
      ∃ gs, AreTakenFrom gs args ∧ Make byDefault gs date rule now verbose color := by
  constructor
  · intro h
    rw [Options.parse_eq] at h
    rcases Options.read_cases byDefault args with
      ⟨e, he⟩ | ⟨-, hhelp⟩ | ⟨gs, o', htaken, htake, hcommand⟩
    · cases he.symm.trans h
    · cases hhelp.symm.trans h
    · obtain ⟨_, _, hdate, hrule, hnext⟩ :=
        Options.toCommand_eq_ok_iff.mp (hcommand.symm.trans h)
      cases hnext
      refine ⟨gs, htaken, Options.takeAll_start_iff_make.mp ?_⟩
      rw [htake, ← hdate, ← hrule]
  · rintro ⟨gs, htaken, hmake⟩
    exact Options.parse_of_make htaken hmake

theorem run_rejected {host : Host} (hhelp : ¬ AsksForHelp args)
    (hrejected : ∀ date rule now verbose color,
      Command.parse host.color ("next" :: args) ≠ .ok (.next date rule now verbose color)) :
    ∃ e : ArgumentError, run host ("next" :: args) = .exit ⟨2, "", e.message ++ "\n"⟩ := by
  rcases Options.read_cases host.color args with
    ⟨e, he⟩ | ⟨hasks, -⟩ | ⟨gs, o', -, -, hcommand⟩
  · refine ⟨e, ?_⟩
    rw [run, Options.parse_eq, he]
  · exact absurd hasks hhelp
  · cases hparse : o'.toCommand with
    | error e =>
      refine ⟨e, ?_⟩
      rw [run, Options.parse_eq, hcommand, hparse]
    | ok command =>
      obtain ⟨_, _, -, -, rfl⟩ := Options.toCommand_eq_ok_iff.mp hparse
      exact absurd (hcommand.trans hparse) (hrejected _ _ _ _ _)

end Parse

/-- The arguments give the settings as the help text describes them, those with a value at most
once. -/
def Setting.AreGivenOnce (gs : List Setting) (args : List String) : Prop :=
  AreGivenBy gs args ∧ ∀ flag : Flag, flag.TakesValue → (valuesOf flag gs).length ≤ 1

def IsDocumented (args : List String) : Prop := ∃ gs, AreGivenOnce gs args

/-- The reference day is given again. -/
def RepeatsReference (args : List String) : Prop :=
  ∃ gs, AreTakenFrom gs args ∧ 1 < (valuesOf .now gs).length

/-- Among the arguments is a switch with a value. -/
def GivesUnreadValue (args : List String) : Prop :=
  ∃ gs g before piece after, AreTakenFrom gs before ∧ HasUnreadValue g piece ∧
    args = before ++ piece ++ after

theorem areGivenBy_or_givesUnreadValue (h : AreTakenFrom gs args) :
    AreGivenBy gs args ∨ GivesUnreadValue args := by
  induction gs generalizing args with
  | nil =>
    rw [areTakenFrom_nil.mp h]
    exact .inl ⟨[], .nil, rfl⟩
  | cons g gs ih =>
    obtain ⟨piece, rest, hpiece, hrest, rfl⟩ := areTakenFrom_cons.mp h
    rcases hpiece with hgiven | hunread
    · rcases ih hrest with
        ⟨pieces, hpieces, rfl⟩ | ⟨gs', g', before, piece', after, hbefore, hunread, rfl⟩
      · exact .inl ⟨piece :: pieces, .cons hgiven hpieces, rfl⟩
      · refine .inr ⟨g :: gs', g', piece ++ before, piece', after,
          areTakenFrom_cons.mpr ⟨_, _, .inl hgiven, hbefore, rfl⟩, hunread, ?_⟩
        simp only [List.append_assoc]
    · exact .inr ⟨[], g, [], piece, rest, areTakenFrom_nil.mpr rfl, hunread, rfl⟩

theorem Setting.HasUnreadValue.not_isGivenBy {g' : Setting} (h : HasUnreadValue g piece) :
    ¬ IsGivenBy g' piece := by
  intro hgiven
  obtain ⟨rfl, -⟩ := IsTakenFrom.unique (.inl hgiven) (.inr h) (Eq.refl (piece ++ []))
  obtain ⟨hvalue, value, hpiece⟩ := h
  cases hgiven with
  | behind h => cases hvalue.symm.trans h
  | inline h => cases hvalue.symm.trans h
  | alone _ hname =>
    obtain ⟨rfl, -⟩ := List.cons.inj hpiece
    cases ((Flag.Heads.named hname).unique (.inline value)).2

theorem not_areGivenBy_of_givesUnreadValue (h : GivesUnreadValue args) : ¬ AreGivenBy gs args := by
  obtain ⟨gs', g, before, piece, after, hbefore, hunread, rfl⟩ := h
  -- both readings agree up to the value that nothing reads
  induction gs' generalizing gs before with
  | nil =>
    rintro ⟨pieces, hpieces, heq⟩
    rw [areTakenFrom_nil.mp hbefore, List.nil_append] at heq
    cases hpieces with
    | nil =>
      exact absurd (List.append_eq_nil_iff.mp heq).1 (IsTakenFrom.ne_nil (.inr hunread))
    | cons hpiece hpieces =>
      obtain ⟨rfl, rfl⟩ := IsTakenFrom.unique (.inr hunread) (.inl hpiece) heq
      rw [List.flatten_cons] at heq
      rw [← List.append_cancel_right heq] at hpiece
      exact HasUnreadValue.not_isGivenBy hunread hpiece
  | cons g' gs' ih =>
    obtain ⟨piece', before', hpiece', hbefore', rfl⟩ := areTakenFrom_cons.mp hbefore
    rintro ⟨pieces, hpieces, heq⟩
    rw [List.append_assoc, List.append_assoc] at heq
    cases hpieces with
    | nil => exact absurd (List.append_eq_nil_iff.mp heq).1 hpiece'.ne_nil
    | cons hpiece hpieces =>
      obtain ⟨rfl, hrest⟩ := hpiece'.unique (.inl hpiece) heq
      rw [← List.append_assoc] at hrest
      exact ih _ hbefore' ⟨_, hpieces, hrest⟩

/-- Accepted arguments are documented, unless they give the reference day again or a switch a
value, which nothing reads. -/
theorem isDocumented_iff_of_make {byDefault verbose color : Bool} {date rule : String}
    {now : Option Day} (htaken : AreTakenFrom gs args)
    (hmake : Make byDefault gs date rule now verbose color) :
    IsDocumented args ↔ ¬ RepeatsReference args ∧ ¬ GivesUnreadValue args := by
  constructor
  · rintro ⟨gs', hgiven, honce⟩
    refine ⟨?_, fun hunread => not_areGivenBy_of_givesUnreadValue hunread hgiven⟩
    rintro ⟨gs'', htaken', hrepeats⟩
    rw [htaken'.unique hgiven.areTakenFrom] at hrepeats
    exact absurd hrepeats (honce .now (.inr (.inr rfl))).not_gt
  · rintro ⟨hrepeats, hunread⟩
    refine ⟨gs, (areGivenBy_or_givesUnreadValue htaken).resolve_right hunread, ?_⟩
    rintro flag (rfl | rfl | rfl)
    · exact hmake.date ▸ le_rfl
    · exact hmake.rule ▸ le_rfl
    · exact not_lt.mp fun hlt => hrepeats ⟨gs, htaken, hlt⟩

/-- Let the arguments ask for no help. If they are documented options, each of those with a value at
most once, that make up a command, then they are read as this command; and arguments are read as a
command only so, or else they give the reference day again or a switch a value. All other arguments,
the undocumented ones in particular, end the run with code 2, nothing printed and the error as its
complaint. -/
theorem next_arguments_exactly {host : Host} (hhelp : ¬ AsksForHelp args) :
    (∀ date rule now verbose color,
      Command.parse host.color ("next" :: args) = .ok (.next date rule now verbose color) →
        (∃ gs, AreGivenOnce gs args ∧ Make host.color gs date rule now verbose color) ∨
          RepeatsReference args ∨ GivesUnreadValue args) ∧
      (∀ gs date rule now verbose color, AreGivenOnce gs args →
        Make host.color gs date rule now verbose color →
        Command.parse host.color ("next" :: args) = .ok (.next date rule now verbose color)) ∧
      ((∀ date rule now verbose color,
          Command.parse host.color ("next" :: args) ≠ .ok (.next date rule now verbose color)) →
        ∃ e : ArgumentError, run host ("next" :: args) = .exit ⟨2, "", e.message ++ "\n"⟩) ∧
      (¬ IsDocumented args →
        (∃ e : ArgumentError, run host ("next" :: args) = .exit ⟨2, "", e.message ++ "\n"⟩) ∨
          RepeatsReference args ∨ GivesUnreadValue args) := by
  have haccepted : ∀ date rule now verbose color,
      Command.parse host.color ("next" :: args) = .ok (.next date rule now verbose color) →
        (∃ gs, AreGivenOnce gs args ∧ Make host.color gs date rule now verbose color) ∨
          RepeatsReference args ∨ GivesUnreadValue args := by
    intro date rule now verbose color hparse
    obtain ⟨gs, htaken, hmake⟩ := parse_eq_next_iff.mp hparse
    by_cases hdocumented : IsDocumented args
    · obtain ⟨gs', hgiven⟩ := hdocumented
      rw [htaken.unique hgiven.1.areTakenFrom] at hmake
      exact .inl ⟨gs', hgiven, hmake⟩
    · rw [isDocumented_iff_of_make htaken hmake, ← not_or, not_not] at hdocumented
      exact .inr hdocumented
  refine ⟨haccepted, ?_, run_rejected hhelp, fun hundocumented => ?_⟩
  · intro gs date rule now verbose color hgiven hmake
    exact Options.parse_of_make hgiven.1.areTakenFrom hmake
  · by_cases hparse : ∀ date rule now verbose color,
        Command.parse host.color ("next" :: args) ≠ .ok (.next date rule now verbose color)
    · exact .inl (run_rejected hhelp hparse)
    · push Not at hparse
      obtain ⟨_, _, _, _, _, hparse⟩ := hparse
      refine .inr ((haccepted _ _ _ _ _ hparse).resolve_left ?_)
      rintro ⟨gs, hgiven, -⟩
      exact hundocumented ⟨gs, hgiven⟩

/-- A second anchor is an error. -/
theorem next_arguments_exactly_secondDate : ∃ (host : Host) (args : List String)
    (e : ArgumentError), args = ["-r", "y", "-d", "20240101", "--date=20250101"] ∧
      ¬ AsksForHelp args ∧ ¬ RepeatsReference args ∧ ¬ GivesUnreadValue args ∧
      ¬ IsDocumented args ∧ run host ("next" :: args) = .exit ⟨2, "", e.message ++ "\n"⟩ ∧
      e.message = "error: --date provided multiple times" := by
  let host : Host := ⟨⟨738911, by decide, by decide⟩, fun _ => none, fun _ => false, false, ""⟩
  have hgiven : AreGivenBy [.repeatRule "y", .date "20240101", .date "20250101"]
      ["-r", "y", "-d", "20240101", "--date=20250101"] :=
    ⟨_, .cons (.behind rfl (.inr rfl)) (.cons (.behind rfl (.inr rfl))
      (.cons (.inline rfl) .nil)), rfl⟩
  have hhelp : ¬ AsksForHelp ["-r", "y", "-d", "20240101", "--date=20250101"] := by
    rw [← @parse_eq_help_iff _ false]
    intro h
    cases h
  have honce : ¬ RepeatsReference ["-r", "y", "-d", "20240101", "--date=20250101"] := by
    rintro ⟨gs, htaken, hlong⟩
    rw [htaken.unique hgiven.areTakenFrom] at hlong
    exact absurd hlong (by decide)
  have hread : ¬ GivesUnreadValue ["-r", "y", "-d", "20240101", "--date=20250101"] :=
    fun hunread => not_areGivenBy_of_givesUnreadValue hunread hgiven
  have hundocumented : ¬ IsDocumented ["-r", "y", "-d", "20240101", "--date=20250101"] := by
    rintro ⟨gs, hgiven', hvalues⟩
    have hdates := hvalues .date (.inl rfl)
    rw [hgiven'.areTakenFrom.unique hgiven.areTakenFrom] at hdates
    exact absurd hdates (by decide)
  obtain ⟨e, he⟩ := ((@next_arguments_exactly _ host hhelp).2.2.2 hundocumented).resolve_right
    (not_or.mpr ⟨honce, hread⟩)
  have hmessage : e.message ++ "\n" = "error: --date provided multiple times\n" :=
    congrArg Outcome.stderr (Verdict.exit.inj (he.symm.trans (by rfl)))
  exact ⟨host, _, e, rfl, hhelp, honce, hread, hundocumented, he,
    (String.append_left_inj _).mp hmessage⟩

/-- A second reference day and a value for a switch are accepted without a word: the first reference
day and the value of the switch are dropped. -/
theorem next_accepts_undocumented : ∃ repeated unread : List String,
    repeated = ["--date", "20240101", "--repeat", "y", "--now", "20240101", "--now", "20250101"] ∧
      unread = ["--date", "20240101", "--repeat", "y", "--verbose=1"] ∧
      (¬ AsksForHelp repeated ∧ ¬ IsDocumented repeated ∧
        Command.parse false ("next" :: repeated) =
          .ok (.next "20240101" "y" (Day.ofText? "20250101") false false)) ∧
      ¬ AsksForHelp unread ∧ ¬ IsDocumented unread ∧
        Command.parse false ("next" :: unread) = .ok (.next "20240101" "y" none true false) := by
  have htaken : AreTakenFrom [.date "20240101", .repeatRule "y", .now "20240101", .now "20250101"]
      ["--date", "20240101", "--repeat", "y", "--now", "20240101", "--now", "20250101"] :=
    ⟨_, .cons (.inl (.behind rfl (.inl rfl))) (.cons (.inl (.behind rfl (.inl rfl)))
      (.cons (.inl (.behind rfl (.inl rfl))) (.cons (.inl (.behind rfl (.inl rfl))) .nil))), rfl⟩
  have hunread : GivesUnreadValue ["--date", "20240101", "--repeat", "y", "--verbose=1"] :=
    ⟨[.date "20240101", .repeatRule "y"], .verbose, _, ["--verbose=1"], [],
      ⟨_, .cons (.inl (.behind rfl (.inl rfl))) (.cons (.inl (.behind rfl (.inl rfl))) .nil), rfl⟩,
      ⟨rfl, "1", rfl⟩, rfl⟩
  refine ⟨_, _, rfl, rfl, ⟨?_, ?_, rfl⟩, ?_, ?_, rfl⟩
  · rw [← @parse_eq_help_iff _ false]
    intro h
    cases h
  · rintro ⟨gs, hgiven, honce⟩
    have hreference := honce .now (.inr (.inr rfl))
    rw [hgiven.areTakenFrom.unique htaken] at hreference
    exact absurd hreference (by decide)
  · rw [← @parse_eq_help_iff _ false]
    intro h
    cases h
  · rintro ⟨gs, hgiven, -⟩
    exact not_areGivenBy_of_givesUnreadValue hunread hgiven

end Cli
end Agenda
