import Agenda.Cli.Run
import Agenda.Proofs.Calendar.Text
import Mathlib.Data.List.Forall2

/-!
# The settings in a list of arguments

The arguments of `next` are read as settings, one after the other: an option with a value, or a
switch. A value is taken as it is, whatever it looks like. What the options hold after some
arguments is said by the settings alone: the values of the anchor and of the rule, of which there
is at most one, the last reference day, and the last colour that is asked for. So arguments whose
settings make up a command are read as this command, and settings that are given once each make the
same command in every order.
-/

namespace Agenda
namespace Cli

namespace Flag

/-- The short form of an option that has one. -/
def short? : Flag → Option String
  | date => some "-d"
  | repeatRule => some "-r"
  | now => some "-n"
  | verbose => some "-v"
  | color => none
  | noColor => none
  | help => some "-h"

/-- The text is the long or the short form of the option. -/
def IsNamedBy (flag : Flag) (s : String) : Prop := s = flag.name ∨ flag.short? = some s

def TakesValue (flag : Flag) : Prop := flag = .date ∨ flag = .repeatRule ∨ flag = .now

/-- The argument names the option, with the value behind an equals sign if there is one. -/
inductive Heads (flag : Flag) : String → Option String → Prop
  | named {arg : String} (h : flag.IsNamedBy arg) : Heads flag arg none
  | inline (value : String) : Heads flag (flag.name ++ "=" ++ value) (some value)

theorem ofText?_eq_some_iff {flag : Flag} {s : String} :
    ofText? s = some flag ↔ flag.IsNamedBy s := by
  constructor
  · intro h
    unfold ofText? at h
    split_ifs at h with hs hs hs hs hs hs hs
    all_goals cases h
    case pos => exact hs.imp id fun h => congrArg some h.symm
    case pos => exact hs.imp id fun h => congrArg some h.symm
    case pos => exact hs.imp id fun h => congrArg some h.symm
    case pos => exact hs.imp id fun h => congrArg some h.symm
    case pos => exact .inl hs
    case pos => exact .inl hs
    case pos => exact hs.imp id fun h => congrArg some h.symm
  · intro h
    rcases h with rfl | h
    · cases flag <;> rfl
    · cases flag <;> cases h <;> rfl

theorem exists_name_eq (flag : Flag) :
    ∃ rest, flag.name.toList = '-' :: '-' :: rest ∧ '=' ∉ flag.name.toList := by
  cases flag <;> exact ⟨_, rfl, by decide⟩

end Flag

section Cut

variable {flag flag' : Flag} {arg name value : String} {inline inline' : Option String}

theorem cut_append {rest : List Char} (hlong : name.toList = '-' :: '-' :: rest)
    (hplain : '=' ∉ name.toList) :
    cut (name ++ "=" ++ value) = (name, some value) := by
  have hlist : (name ++ "=" ++ value).toList = name.toList ++ '=' :: value.toList := by
    simp
  have hkept : ∀ c ∈ name.toList, decide (c ≠ '=') = true :=
    fun c hc => decide_eq_true (ne_of_mem_of_not_mem hc hplain)
  have htake : (name ++ "=" ++ value).toList.takeWhile (· ≠ '=') = name.toList := by
    rw [hlist, List.takeWhile_append_of_pos hkept]
    simp
  have hdrop : (name ++ "=" ++ value).toList.dropWhile (· ≠ '=') = '=' :: value.toList := by
    rw [hlist, List.dropWhile_append_of_pos hkept]
    simp
  unfold cut
  rw [htake, hdrop]
  split
  · simp
  · rename_i hnot
    exact absurd (hlist.trans (by rw [hlong]; rfl)) (hnot _)

theorem cut_cases (arg : String) :
    cut arg = (arg, none) ∨ ∃ name value rest, cut arg = (name, some value) ∧
      arg = name ++ "=" ++ value ∧ name.toList = '-' :: '-' :: rest := by
  unfold cut
  split
  · rename_i rest hlong
    split
    · exact .inl rfl
    · rename_i c value hvalue
      have hc : c = '=' := by
        have hhead := List.head?_dropWhile_not (· ≠ '=') arg.toList
        rw [hvalue] at hhead
        simpa using hhead
      have hcut := List.takeWhile_append_dropWhile (p := (· ≠ '=')) (l := arg.toList)
      rw [hvalue, hc] at hcut
      refine .inr ⟨_, _, rest.takeWhile (· ≠ '='), rfl, ?_, ?_⟩
      · rw [← String.toList_inj]
        simpa using hcut.symm
      · rw [hlong]
        simp
  · exact .inl rfl

theorem Flag.heads_iff : flag.Heads arg inline ↔
    Flag.ofText? (cut arg).1 = some flag ∧ (cut arg).2 = inline := by
  constructor
  · intro h
    cases h with
    | named h =>
      have hcut : cut arg = (arg, none) := by
        rcases h with rfl | h
        · cases flag <;> rfl
        · cases flag <;> cases h <;> rfl
      rw [hcut]
      exact ⟨Flag.ofText?_eq_some_iff.mpr h, rfl⟩
    | inline value =>
      obtain ⟨rest, hlong, hplain⟩ := flag.exists_name_eq
      rw [cut_append hlong hplain]
      exact ⟨Flag.ofText?_eq_some_iff.mpr (.inl rfl), rfl⟩
  · rintro ⟨hflag, rfl⟩
    rw [Flag.ofText?_eq_some_iff] at hflag
    rcases cut_cases arg with hcut | ⟨name, value, rest, hcut, rfl, hlong⟩
    · rw [hcut] at hflag ⊢
      exact .named hflag
    · rw [hcut] at hflag ⊢
      -- what stands before an equals sign has two hyphens, so it is no short form
      have hname : name = flag.name := by
        rcases hflag with h | h
        · exact h
        · cases flag <;> cases h <;> cases hlong
      rw [hname]
      exact .inline value

theorem Flag.Heads.unique (h : flag.Heads arg inline) (h' : flag'.Heads arg inline') :
    flag = flag' ∧ inline = inline' := by
  rw [heads_iff] at h h'
  exact ⟨Option.some.inj (h.1.symm.trans h'.1), h.2.symm.trans h'.2⟩

end Cut

/-- What one option among the arguments says. -/
inductive Setting
  | date (value : String)
  | repeatRule (value : String)
  | now (value : String)
  | verbose
  | color (on : Bool)
deriving DecidableEq

namespace Setting

def flag : Setting → Flag
  | date _ => .date
  | repeatRule _ => .repeatRule
  | now _ => .now
  | verbose => .verbose
  | color true => .color
  | color false => .noColor

def value? : Setting → Option String
  | date value => some value
  | repeatRule value => some value
  | now value => some value
  | verbose => none
  | color _ => none

variable {g g' : Setting} {piece piece' rest rest' : List String}

/-- The arguments give the setting as the help text describes it: the value behind a form of the
option, or behind the long form and an equals sign, or no value. -/
inductive IsGivenBy (g : Setting) : List String → Prop
  | behind {name value : String} (hvalue : g.value? = some value)
      (hname : g.flag.IsNamedBy name) : IsGivenBy g [name, value]
  | inline {value : String} (hvalue : g.value? = some value) :
      IsGivenBy g [g.flag.name ++ "=" ++ value]
  | alone {name : String} (hvalue : g.value? = none) (hname : g.flag.IsNamedBy name) :
      IsGivenBy g [name]

def HasUnreadValue (g : Setting) (piece : List String) : Prop :=
  g.value? = none ∧ ∃ value, piece = [g.flag.name ++ "=" ++ value]

/-- The setting is what the arguments are taken for. -/
def IsTakenFrom (g : Setting) (piece : List String) : Prop :=
  g.IsGivenBy piece ∨ g.HasUnreadValue piece

theorem eq_of_flag_eq (hflag : g.flag = g'.flag) (hvalue : g.value? = g'.value?) : g = g' := by
  match g, g' with
  | date _, date _ | repeatRule _, repeatRule _ | now _, now _ => cases hvalue; rfl
  | verbose, verbose | color true, color true | color false, color false => rfl

theorem value?_isSome_iff : g.value?.isSome ↔ g.flag.TakesValue := by
  match g with
  | date _ | repeatRule _ | now _ | verbose | color true | color false =>
    simp [value?, flag, Flag.TakesValue]

/-- The first argument heads the option; its value, if it needs one, is inline or the next one. -/
theorem isTakenFrom_iff : g.IsTakenFrom piece ↔ ∃ arg inline tail,
    piece = arg :: tail ∧ g.flag.Heads arg inline ∧
      ((g.value? = none ∧ tail = []) ∨
        ∃ value, g.value? = some value ∧
          (inline = some value ∧ tail = [] ∨ inline = none ∧ tail = [value])) := by
  constructor
  · rintro ((⟨hvalue, hname⟩ | ⟨hvalue⟩ | ⟨hvalue, hname⟩) | ⟨hvalue, value, rfl⟩)
    · exact ⟨_, _, _, rfl, .named hname, .inr ⟨_, hvalue, .inr ⟨rfl, rfl⟩⟩⟩
    · exact ⟨_, _, _, rfl, .inline _, .inr ⟨_, hvalue, .inl ⟨rfl, rfl⟩⟩⟩
    · exact ⟨_, _, _, rfl, .named hname, .inl ⟨hvalue, rfl⟩⟩
    · exact ⟨_, _, _, rfl, .inline _, .inl ⟨hvalue, rfl⟩⟩
  · rintro ⟨arg, inline, tail, rfl, hheads, ⟨hvalue, rfl⟩ | ⟨value, hvalue, hread⟩⟩
    · cases hheads with
      | named hname => exact .inl (.alone hvalue hname)
      | inline value => exact .inr ⟨hvalue, value, rfl⟩
    · rcases hread with ⟨rfl, rfl⟩ | ⟨rfl, rfl⟩
      · cases hheads
        exact .inl (.inline hvalue)
      · cases hheads with
        | named hname => exact .inl (.behind hvalue hname)

theorem IsTakenFrom.unique (h : g.IsTakenFrom piece) (h' : g'.IsTakenFrom piece')
    (heq : piece ++ rest = piece' ++ rest') : g = g' ∧ rest = rest' := by
  obtain ⟨arg, inline, tail, rfl, hheads, hread⟩ := isTakenFrom_iff.mp h
  obtain ⟨arg', inline', tail', rfl, hheads', hread'⟩ := isTakenFrom_iff.mp h'
  obtain ⟨rfl, htail⟩ := List.cons.inj heq
  obtain ⟨hflag, rfl⟩ := hheads.unique hheads'
  have hneeds : g.value?.isSome ↔ g'.value?.isSome := by
    rw [value?_isSome_iff, value?_isSome_iff, hflag]
  -- one option either always or never needs a value, and an inline value is not looked for again
  rcases hread with ⟨hvalue, rfl⟩ | ⟨value, hvalue, hread⟩ <;>
    rcases hread' with ⟨hvalue', rfl⟩ | ⟨value', hvalue', hread'⟩ <;>
    rw [hvalue, hvalue'] at hneeds
  · exact ⟨eq_of_flag_eq hflag (hvalue.trans hvalue'.symm), htail⟩
  · cases hneeds.mpr rfl
  · cases hneeds.mp rfl
  · rcases hread with ⟨rfl, rfl⟩ | ⟨rfl, rfl⟩ <;>
      rcases hread' with ⟨hinline, rfl⟩ | ⟨hinline, rfl⟩ <;> cases hinline
    · exact ⟨eq_of_flag_eq hflag (hvalue.trans hvalue'.symm), htail⟩
    · obtain ⟨rfl, hrest⟩ := List.cons.inj htail
      exact ⟨eq_of_flag_eq hflag (hvalue.trans hvalue'.symm), hrest⟩

/-- The arguments give the settings one after the other. -/
def AreGivenBy (gs : List Setting) (args : List String) : Prop :=
  ∃ pieces, List.Forall₂ IsGivenBy gs pieces ∧ args = pieces.flatten

/-- The settings are what the arguments are taken for, one after the other. -/
def AreTakenFrom (gs : List Setting) (args : List String) : Prop :=
  ∃ pieces, List.Forall₂ IsTakenFrom gs pieces ∧ args = pieces.flatten

variable {gs gs' : List Setting} {args : List String}

theorem AreGivenBy.areTakenFrom (h : AreGivenBy gs args) : AreTakenFrom gs args := by
  obtain ⟨pieces, hpieces, rfl⟩ := h
  exact ⟨pieces, hpieces.imp fun _ _ => .inl, rfl⟩

theorem areTakenFrom_nil : AreTakenFrom [] args ↔ args = [] := by
  constructor
  · rintro ⟨_, ⟨⟩, rfl⟩
    rfl
  · rintro rfl
    exact ⟨[], .nil, rfl⟩

theorem areTakenFrom_cons : AreTakenFrom (g :: gs) args ↔
    ∃ piece rest, g.IsTakenFrom piece ∧ AreTakenFrom gs rest ∧ args = piece ++ rest := by
  constructor
  · rintro ⟨_, hpieces, rfl⟩
    cases hpieces with
    | cons hpiece hpieces => exact ⟨_, _, hpiece, ⟨_, hpieces, rfl⟩, rfl⟩
  · rintro ⟨piece, _, hpiece, ⟨pieces, hpieces, rfl⟩, rfl⟩
    exact ⟨piece :: pieces, .cons hpiece hpieces, rfl⟩

theorem IsTakenFrom.ne_nil (h : g.IsTakenFrom piece) : piece ≠ [] := by
  obtain ⟨_, _, _, rfl, -⟩ := isTakenFrom_iff.mp h
  exact List.cons_ne_nil _ _

theorem AreTakenFrom.unique (h : AreTakenFrom gs args) (h' : AreTakenFrom gs' args) : gs = gs' := by
  induction gs generalizing gs' args with
  | nil =>
    rw [areTakenFrom_nil] at h
    cases gs' with
    | nil => rfl
    | cons g gs' =>
      obtain ⟨piece, rest, hpiece, -, hargs⟩ := areTakenFrom_cons.mp h'
      rw [h] at hargs
      exact absurd (List.append_eq_nil_iff.mp hargs.symm).1 hpiece.ne_nil
  | cons g gs ih =>
    obtain ⟨piece, rest, hpiece, hrest, rfl⟩ := areTakenFrom_cons.mp h
    cases gs' with
    | nil =>
      rw [areTakenFrom_nil] at h'
      exact absurd (List.append_eq_nil_iff.mp h').1 hpiece.ne_nil
    | cons g' gs' =>
      obtain ⟨piece', rest', hpiece', hrest', heq⟩ := areTakenFrom_cons.mp h'
      obtain ⟨rfl, rfl⟩ := hpiece.unique hpiece' heq
      rw [ih hrest hrest']

end Setting

namespace Options

open Setting

variable {o : Options} {g : Setting} {gs : List Setting} {piece rest args : List String}

def take (o : Options) : Setting → Except ArgumentError Options
  | .date value => o.assign .date value
  | .repeatRule value => o.assign .repeatRule value
  | .now value => o.assign .now value
  | .verbose => .ok { o with verbose := true }
  | .color on => .ok { o with color := on }

def takeAll (o : Options) : List Setting → Except ArgumentError Options
  | [] => .ok o
  | g :: gs =>
    match o.take g with
    | .error e => .error e
    | .ok o => takeAll o gs

/-- How the reading goes on with the arguments that are left. -/
def goOn (rest : List String) : Except ArgumentError Options → Except ArgumentError Command
  | .error e => .error e
  | .ok o => read o rest

theorem read_inline {flag : Flag} {arg value : String} (htakes : flag.TakesValue)
    (hflag : Flag.ofText? (cut arg).1 = some flag) (hinline : (cut arg).2 = some value) :
    read o (arg :: rest) = goOn rest (o.assign flag value) := by
  rcases htakes with rfl | rfl | rfl <;> simp only [read, hflag, hinline] <;> rfl

/-- The argument behind an option that needs a value is its value, whatever it looks like. -/
theorem read_next {flag : Flag} {arg value : String} (htakes : flag.TakesValue)
    (hflag : Flag.ofText? (cut arg).1 = some flag) (hinline : (cut arg).2 = none) :
    read o (arg :: value :: rest) = goOn rest (o.assign flag value) := by
  rcases htakes with rfl | rfl | rfl <;> simp only [read, hflag, hinline] <;> rfl

theorem read_isTakenFrom (h : g.IsTakenFrom piece) (rest : List String) :
    read o (piece ++ rest) = goOn rest (o.take g) := by
  obtain ⟨arg, inline, tail, rfl, hheads, hread⟩ := isTakenFrom_iff.mp h
  obtain ⟨hflag, hinline⟩ := Flag.heads_iff.mp hheads
  rcases hread with ⟨hvalue, rfl⟩ | ⟨value, hvalue, hread⟩
  · match g with
    | .verbose | .color true | .color false =>
      simp only [List.cons_append, List.nil_append, read, hflag, Setting.flag]
      rfl
  · have htakes : g.flag.TakesValue := value?_isSome_iff.mp (hvalue ▸ rfl)
    have htake : o.take g = o.assign g.flag value := by
      match g with
      | .date _ | .repeatRule _ | .now _ => cases hvalue; rfl
    rw [htake]
    rcases hread with ⟨rfl, rfl⟩ | ⟨rfl, rfl⟩
    · exact read_inline htakes hflag hinline
    · exact read_next htakes hflag hinline

/-- Arguments that are taken for settings change the options as the settings say. -/
theorem read_areTakenFrom (h : AreTakenFrom gs args) (rest : List String) :
    read o (args ++ rest) = goOn rest (o.takeAll gs) := by
  induction gs generalizing o args with
  | nil =>
    rw [areTakenFrom_nil.mp h]
    rfl
  | cons g gs ih =>
    obtain ⟨piece, args, hpiece, hargs, rfl⟩ := areTakenFrom_cons.mp h
    rw [List.append_assoc, read_isTakenFrom hpiece, takeAll]
    cases o.take g with
    | error e => rfl
    | ok o => exact ih hargs

end Options

namespace Setting

/-- The values of an option, from the first to the last. -/
def valuesOf (flag : Flag) (gs : List Setting) : List String :=
  gs.filterMap fun g => if g.flag = flag then g.value? else none

def colorsOf (gs : List Setting) : List Bool :=
  gs.filterMap fun
    | color on => some on
    | _ => none

theorem valuesOf_cons (flag : Flag) (g : Setting) (gs : List Setting) :
    valuesOf flag (g :: gs) =
      (if g.flag = flag then g.value?.toList else []) ++ valuesOf flag gs := by
  unfold valuesOf
  rw [List.filterMap_cons]
  split_ifs
  · cases g.value? <;> rfl
  · rfl

theorem colorsOf_cons (g : Setting) (gs : List Setting) :
    colorsOf (g :: gs) =
      (match g with
        | color on => [on]
        | _ => []) ++ colorsOf gs := by
  cases g <;> rfl

end Setting

namespace Options

open Setting

variable {o o' : Options} {g : Setting} {gs : List Setting} {value : String}

/-- The settings can be taken one after the other, and the options then hold what they held and
what the settings say. -/
@[mk_iff]
structure Collects (o : Options) (gs : List Setting) (o' : Options) : Prop where
  date : o'.date.toList = o.date.toList ++ valuesOf .date gs
  repeatRule : o'.repeatRule.toList = o.repeatRule.toList ++ valuesOf .repeatRule gs
  readable : ∀ value ∈ valuesOf .now gs, (Day.ofText? value).isSome
  now : o'.now = ((valuesOf .now gs).filterMap Day.ofText?).getLast?.or o.now
  verbose : o'.verbose = (o.verbose || decide (.verbose ∈ gs))
  color : o'.color = (colorsOf gs).getLast?.getD o.color

theorem collects_nil : Collects o [] o' ↔ o = o' := by
  constructor
  · rintro ⟨hdate, hrule, -, hnow, hverbose, hcolor⟩
    obtain ⟨date, repeatRule, now, verbose, color⟩ := o
    obtain ⟨date', repeatRule', now', verbose', color'⟩ := o'
    have hdate : date' = date := by simpa [valuesOf] using congrArg List.head? hdate
    have hrule : repeatRule' = repeatRule := by simpa [valuesOf] using congrArg List.head? hrule
    have hnow : now' = now := by simpa [valuesOf] using hnow
    have hverbose : verbose' = verbose := by simpa using hverbose
    have hcolor : color' = color := by simpa [colorsOf] using hcolor
    rw [hdate, hrule, hnow, hverbose, hcolor]
  · rintro rfl
    simp [collects_iff, valuesOf, colorsOf]

/-- A slot that takes one value can take the first of some values only when it is empty. -/
theorem toList_eq_append_cons {slot slot' : Option String} {values : List String} :
    slot'.toList = slot.toList ++ value :: values ↔
      slot = none ∧ slot'.toList = value :: values := by
  cases slot <;> cases slot' <;> simp

section Step

theorem collects_date : Collects o (.date value :: gs) o' ↔
    o.date = none ∧ Collects { o with date := some value } gs o' := by
  simp [collects_iff, valuesOf_cons, colorsOf_cons, Setting.flag, value?, toList_eq_append_cons,
    and_assoc]

theorem collects_repeatRule : Collects o (.repeatRule value :: gs) o' ↔
    o.repeatRule = none ∧ Collects { o with repeatRule := some value } gs o' := by
  simp [collects_iff, valuesOf_cons, colorsOf_cons, Setting.flag, value?, toList_eq_append_cons,
    and_assoc, and_left_comm (b := o.repeatRule = none)]

theorem collects_now : Collects o (.now value :: gs) o' ↔
    ∃ day, Day.ofText? value = some day ∧ Collects { o with now := some day } gs o' := by
  cases hday : Day.ofText? value <;>
    simp [collects_iff, valuesOf_cons, colorsOf_cons, Setting.flag, value?, hday,
      List.getLast?_cons]

theorem collects_verbose : Collects o (.verbose :: gs) o' ↔
    Collects { o with verbose := true } gs o' := by
  simp [collects_iff, valuesOf_cons, colorsOf_cons, Setting.flag]

theorem collects_color {on : Bool} : Collects o (.color on :: gs) o' ↔
    Collects { o with color := on } gs o' := by
  cases on <;>
    simp [collects_iff, valuesOf_cons, colorsOf_cons, Setting.flag, List.getLast?_cons]

end Step

theorem collects_cons : Collects o (g :: gs) o' ↔
    ∃ o₁, o.take g = .ok o₁ ∧ Collects o₁ gs o' := by
  cases g with
  | date value =>
    rw [collects_date]
    cases hdate : o.date <;> simp [take, assign, hdate]
  | repeatRule value =>
    rw [collects_repeatRule]
    cases hrule : o.repeatRule <;> simp [take, assign, hrule]
  | now value =>
    rw [collects_now]
    cases hday : Day.ofText? value <;> simp [take, assign, hday]
  | verbose =>
    rw [collects_verbose]
    simp [take]
  | color on =>
    rw [collects_color]
    simp [take]

/-- What the settings do one after the other, said by their values alone. -/
theorem takeAll_eq_ok_iff : o.takeAll gs = .ok o' ↔ Collects o gs o' := by
  induction gs generalizing o with
  | nil =>
    rw [collects_nil, takeAll, Except.ok.injEq]
  | cons g gs ih =>
    rw [collects_cons, takeAll]
    cases o.take g with
    | error e => simp
    | ok o₁ => simp [ih]

theorem toCommand_eq_ok_iff {command : Command} : o.toCommand = .ok command ↔
    ∃ date rule, o.date = some date ∧ o.repeatRule = some rule ∧
      command = .next date rule o.now o.verbose o.color := by
  unfold toCommand
  cases o.date <;> cases o.repeatRule <;> simp [eq_comm]

end Options

/-- The settings make up a command, when colours are on or off by default. -/
structure Setting.Make (byDefault : Bool) (gs : List Setting) (date rule : String)
    (now : Option Day) (verbose color : Bool) : Prop where
  date : valuesOf .date gs = [date]
  rule : valuesOf .repeatRule gs = [rule]
  readable : ∀ value ∈ valuesOf .now gs, (Day.ofText? value).isSome
  now : now = ((valuesOf .now gs).filterMap Day.ofText?).getLast?
  verbose : verbose = decide (.verbose ∈ gs)
  color : color = (colorsOf gs).getLast?.getD byDefault

namespace Options

open Setting

variable {gs : List Setting} {args : List String} {date rule : String} {now : Option Day}
  {byDefault verbose color : Bool}

def start (byDefault : Bool) : Options := ⟨none, none, none, false, byDefault⟩

theorem takeAll_start_iff_make :
    (start byDefault).takeAll gs = .ok ⟨some date, some rule, now, verbose, color⟩ ↔
      Make byDefault gs date rule now verbose color := by
  rw [takeAll_eq_ok_iff]
  constructor
  · rintro ⟨hdate, hrule, hread, hnow, hverbose, hcolor⟩
    exact ⟨hdate.symm, hrule.symm, hread, by simpa [start] using hnow,
      by simpa [start] using hverbose, hcolor⟩
  · rintro ⟨hdate, hrule, hread, rfl, rfl, rfl⟩
    exact ⟨hdate.symm, hrule.symm, hread, by simp [start], by simp [start], rfl⟩

theorem parse_eq (args : List String) :
    Command.parse byDefault ("next" :: args) = (start byDefault).read args :=
  rfl

theorem parse_of_make (htaken : AreTakenFrom gs args)
    (hmake : Make byDefault gs date rule now verbose color) :
    Command.parse byDefault ("next" :: args) = .ok (.next date rule now verbose color) := by
  have hread := read_areTakenFrom (o := start byDefault) htaken []
  rw [List.append_nil, takeAll_start_iff_make.mpr hmake] at hread
  exact hread

end Options

namespace Setting

variable {gs : List Setting} {date rule raw : String} {reference : Day} {verbose : Bool}
  {color : Option Bool}

/-- A setting for each of the values, the switch for the report if it is wanted, and at most one
switch for the colours. -/
def once (date rule raw : String) (verbose : Bool) (color : Option Bool) : List Setting :=
  [.date date, .repeatRule rule, .now raw] ++ (if verbose then [.verbose] else []) ++
    (color.map .color).toList

theorem valuesOf_once (date rule raw : String) (verbose : Bool) (color : Option Bool) :
    valuesOf .date (once date rule raw verbose color) = [date] ∧
      valuesOf .repeatRule (once date rule raw verbose color) = [rule] ∧
      valuesOf .now (once date rule raw verbose color) = [raw] := by
  rcases color with _ | _ | _ <;> cases verbose <;> exact ⟨rfl, rfl, rfl⟩

theorem colorsOf_once : colorsOf (once date rule raw verbose color) = color.toList := by
  rcases color with _ | _ | _ <;> cases verbose <;> rfl

theorem verbose_mem_once : .verbose ∈ once date rule raw verbose color ↔ verbose = true := by
  rcases color with _ | _ | _ <;> cases verbose <;> simp [once]

/-- The order in which the settings are given plays no part. -/
theorem make_of_perm {byDefault : Bool} (hreference : Day.ofText? raw = some reference)
    (hperm : gs.Perm (once date rule raw verbose color)) :
    Make byDefault gs date rule (some reference) verbose (color.getD byDefault) := by
  obtain ⟨hdate, hrule, hnow⟩ := valuesOf_once date rule raw verbose color
  have hvalues : ∀ flag value, valuesOf flag (once date rule raw verbose color) = [value] →
      valuesOf flag gs = [value] := fun flag value hvalue =>
    List.perm_singleton.mp (hvalue ▸ hperm.filterMap _)
  have hnow := hvalues _ _ hnow
  refine ⟨hvalues _ _ hdate, hvalues _ _ hrule, ?_, ?_, ?_, ?_⟩
  · simp [hnow, hreference]
  · simp [hnow, hreference]
  · simp [hperm.mem_iff, verbose_mem_once]
  · have hcolors : (colorsOf gs).Perm color.toList :=
      (hperm.filterMap _).trans (colorsOf_once ▸ .refl _)
    cases color with
    | none => rw [List.perm_nil.mp hcolors]; rfl
    | some on => rw [List.perm_singleton.mp hcolors]; rfl

end Setting

end Cli
end Agenda
