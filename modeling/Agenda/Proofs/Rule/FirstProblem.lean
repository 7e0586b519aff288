import Agenda.Proofs.Rule.Rejection

/-!
# The first problem of a rule

A rule with a known letter and a right number of parameters is rejected for its first problem from
left to right, which is a list of blank elements only or a text in place of an allowed integer. The
list of days is judged before the list of months. The problem decides the error: an integer is told
to be out of range, and a text that is no integer to be malformed. The exception is a text that is
no integer but begins with a literal of more than 64 bits, which is told to be out of range as well.
-/

namespace Agenda

open Text

/-- The integer, moved to the nearest end of 64 bits where it exceeds them. -/
def clamped (k : Int) : Int := max int64Min (min k int64Max)

/-- The text is a literal of an allowed value. -/
def Parameter.Admits (parameter : Parameter) (raw : List Char) : Prop :=
  ∃ k, IsInteger raw k ∧ parameter.Allows k

/-- What is wrong with the parameters of a rule. -/
inductive Problem
  | blankList (parameter : Parameter)
  | element (parameter : Parameter) (raw : List Char)

/-- The problem is the first one in the list. -/
inductive Parameter.FirstInList (parameter : Parameter) (list : List Char) : Problem → Prop
  | blank (h : ∀ e ∈ list.splitOn ',', AllBlank e) :
      FirstInList parameter list (.blankList parameter)
  | element {before after : List (List Char)} {raw : List Char}
      (hsome : ∃ e ∈ list.splitOn ',', ¬ AllBlank e)
      (hlist : list.splitOn ',' = before ++ raw :: after)
      (hbefore : ∀ e ∈ before, parameter.Admits e) (hraw : ¬ parameter.Admits raw) :
      FirstInList parameter list (.element parameter raw)

namespace RuleLetter

/-- So many parameters may follow the letter. -/
def Takes : RuleLetter → Nat → Prop
  | y, n => n = 0
  | d, n => n = 1
  | w, n => n = 1
  | m, n => n = 1 ∨ n = 2

/-- The problem is the first one in the parameters behind the letter. -/
inductive FirstProblem : RuleLetter → List (List Char) → Problem → Prop
  | dayCount {raw : List Char} (h : ¬ Parameter.dayCount.Admits raw) :
      FirstProblem .d [raw] (.element .dayCount raw)
  | weekdays {list : List Char} {problem : Problem}
      (h : Parameter.weekday.FirstInList list problem) : FirstProblem .w [list] problem
  | monthDays {list : List Char} {rest : List (List Char)} {problem : Problem}
      (h : Parameter.dayOfMonth.FirstInList list problem) : FirstProblem .m (list :: rest) problem
  | months {list names : List Char} {problem : Problem}
      (hdays : ∀ e ∈ list.splitOn ',', Parameter.dayOfMonth.Admits e)
      (h : Parameter.month.FirstInList names problem) : FirstProblem .m [list, names] problem

end RuleLetter

namespace Problem

/-- The error that the descriptions of the errors give to the problem. -/
inductive IsDescribedBy : Problem → RuleError → Prop
  | emptyList {parameter : Parameter} : IsDescribedBy (.blankList parameter) (.emptyList parameter)
  | malformed {parameter : Parameter} {raw : List Char} (h : ∀ k, ¬ IsInteger raw k) :
      IsDescribedBy (.element parameter raw) (.malformedNumber parameter (String.ofList raw))
  | outOfRange {parameter : Parameter} {raw : List Char} {k : Int} (h : IsInteger raw k) :
      IsDescribedBy (.element parameter raw) (.outOfRange parameter (clamped k))

/-- The error that is told. A text is read only up to where its digits exceed 64 bits. -/
inductive IsTold : Problem → RuleError → Prop
  | emptyList {parameter : Parameter} : IsTold (.blankList parameter) (.emptyList parameter)
  | malformed {parameter : Parameter} {raw : List Char} (h : ∀ k, ¬ IsInteger raw k)
      (hshort : ¬ Overruns raw) :
      IsTold (.element parameter raw) (.malformedNumber parameter (String.ofList raw))
  | outOfRange {parameter : Parameter} {raw : List Char} {k : Int} (h : IsInteger raw k) :
      IsTold (.element parameter raw) (.outOfRange parameter (clamped k))
  | overrun {parameter : Parameter} {raw pre : List Char} {k : Int} (hpre : pre <+: raw)
      (h : IsInteger pre k) (hk : k < int64Min ∨ int64Max < k) :
      IsTold (.element parameter raw) (.outOfRange parameter (clamped k))

/-- The text is no integer, but a literal at its beginning exceeds 64 bits. -/
def IsCutShort : Problem → Prop
  | .blankList _ => False
  | .element _ raw => (∀ k, ¬ IsInteger raw k) ∧ Overruns raw

def error : Problem → RuleError
  | .blankList parameter => .emptyList parameter
  | .element parameter raw =>
    match readInt64 raw with
    | .value k => .outOfRange parameter k
    | .above => .outOfRange parameter int64Max
    | .below => .outOfRange parameter int64Min
    | .malformed => .malformedNumber parameter (String.ofList raw)

variable {parameter : Parameter} {raw : List Char} {k : Int} {problem : Problem} {e : RuleError}

theorem clamped_of_above (h : int64Max < k) : clamped k = int64Max := by
  unfold clamped int64Min int64Max at *
  omega

theorem clamped_of_below (h : k < int64Min) : clamped k = int64Min := by
  unfold clamped int64Min int64Max at *
  omega

theorem clamped_of_mem (hlow : int64Min ≤ k) (hhigh : k ≤ int64Max) : clamped k = k := by
  unfold clamped
  omega

theorem error_of_overrun {pre : List Char} (hpre : pre <+: raw) (h : IsInteger pre k)
    (hk : k < int64Min ∨ int64Max < k) :
    (element parameter raw).error = .outOfRange parameter (clamped k) := by
  rcases hk with hk | hk
  · rw [error, readInt64_eq_below_iff.mpr ⟨pre, k, hpre, h, hk⟩, clamped_of_below hk]
  · rw [error, readInt64_eq_above_iff.mpr ⟨pre, k, hpre, h, hk⟩, clamped_of_above hk]

theorem error_of_isInteger (h : IsInteger raw k) :
    (element parameter raw).error = .outOfRange parameter (clamped k) := by
  by_cases hrange : int64Min ≤ k ∧ k ≤ int64Max
  · rw [error, readInt64_eq_value_iff.mpr ⟨h, hrange⟩, clamped_of_mem hrange.1 hrange.2]
  · exact error_of_overrun List.prefix_rfl h (by omega)

theorem error_of_malformed (h : ∀ k, ¬ IsInteger raw k) (hshort : ¬ Overruns raw) :
    (element parameter raw).error = .malformedNumber parameter (String.ofList raw) := by
  rw [error, readInt64_eq_malformed_iff.mpr ⟨h, hshort⟩]

theorem isTold_error (problem : Problem) : problem.IsTold problem.error := by
  cases problem with
  | blankList parameter => exact .emptyList
  | element parameter raw =>
    by_cases hover : Overruns raw
    · obtain ⟨pre, k, hpre, hk, hlt⟩ := hover
      rw [error_of_overrun hpre hk hlt]
      exact .overrun hpre hk hlt
    · by_cases hinteger : ∃ k, IsInteger raw k
      · obtain ⟨k, hk⟩ := hinteger
        rw [error_of_isInteger hk]
        exact .outOfRange hk
      · rw [not_exists] at hinteger
        rw [error_of_malformed hinteger hover]
        exact .malformed hinteger hover

theorem isTold_iff : problem.IsTold e ↔ e = problem.error := by
  constructor
  · intro h
    cases h with
    | emptyList => rfl
    | malformed h hshort => rw [error_of_malformed h hshort]
    | outOfRange h => rw [error_of_isInteger h]
    | overrun hpre h hk => rw [error_of_overrun hpre h hk]
  · rintro rfl
    exact problem.isTold_error

/-- The problem is told as it is described, unless its text is cut short. -/
theorem IsDescribedBy.eq_error_iff (h : problem.IsDescribedBy e) :
    e = problem.error ↔ ¬ problem.IsCutShort := by
  cases h with
  | emptyList => exact iff_of_true rfl id
  | @outOfRange parameter raw k h =>
    refine iff_of_true (error_of_isInteger h).symm ?_
    rintro ⟨hinteger, -⟩
    exact hinteger k h
  | @malformed parameter raw h =>
    by_cases hover : Overruns raw
    · refine iff_of_false ?_ (not_not_intro ⟨h, hover⟩)
      obtain ⟨pre, k, hpre, hk, hlt⟩ := hover
      rw [error_of_overrun hpre hk hlt]
      simp
    · exact iff_of_true (error_of_malformed h hover).symm fun hcut => hover hcut.2

end Problem

variable {raw : List Char} {e : RuleError}

theorem Parameter.admits_iff {parameter : Parameter} :
    parameter.Admits raw ↔ ∃ k, readInt64 raw = .value k ∧ parameter.Allows k := by
  simp only [Admits, readInt64_eq_value_iff]
  constructor
  · rintro ⟨k, hk, hallows⟩
    exact ⟨k, ⟨hk, hallows.range⟩, hallows⟩
  · rintro ⟨k, ⟨hk, -⟩, hallows⟩
    exact ⟨k, hk, hallows⟩

theorem Parameter.read_cases (parameter : Parameter) (raw : List Char) :
    (∃ k, parameter.read raw = .ok k ∧ (parameter.Admits raw ↔ parameter.Allows k) ∧
      (Problem.element parameter raw).error = .outOfRange parameter k) ∨
    parameter.read raw = .error (Problem.element parameter raw).error ∧
      ¬ parameter.Admits raw := by
  rw [Parameter.admits_iff, Parameter.read, Problem.error]
  cases readInt64 raw with
  | value k => exact .inl ⟨k, rfl, by simp, rfl⟩
  | malformed => exact .inr ⟨rfl, by simp⟩
  | above => exact .inr ⟨rfl, by simp⟩
  | below => exact .inr ⟨rfl, by simp⟩

theorem Period.read_eq_error_iff :
    Period.read raw = .error e ↔
      ¬ Parameter.dayCount.Admits raw ∧ e = (Problem.element .dayCount raw).error := by
  have hcheck : ∀ k, ofInt? k = none ↔ ¬ Parameter.dayCount.Allows k := by
    intro k
    rw [ofInt?, dite_eq_right_iff]
    simp only [reduceCtorEq, imp_false]
    rfl
  rw [Period.read]
  rcases Parameter.dayCount.read_cases raw with ⟨k, hread, hadmits, herror⟩ | ⟨hread, hnot⟩
  · rw [hread, hadmits, herror, ← hcheck k]
    dsimp only
    cases ofInt? k <;> simp [eq_comm]
  · rw [hread]
    simp [hnot, eq_comm]

namespace Vocabulary

variable {n : Nat} {v : Vocabulary n}

theorem readMembers_cons_of_error {x : List Char} (h : v.readMember x = .error e)
    (rest : List (List Char)) : v.readMembers (x :: rest) = .error e := by
  rw [readMembers, h]

theorem readMembers_cons_of_ok {x : List Char} {i : Fin n} (h : v.readMember x = .ok i)
    (rest : List (List Char)) :
    v.readMembers (x :: rest) = (v.readMembers rest).map (i :: ·) := by
  rw [readMembers, h]
  dsimp only
  cases v.readMembers rest <;> rfl

section Reading

variable (hv : v.IsComplete)

include hv

theorem admits_iff : v.parameter.Admits raw ↔ ∃ i, v.readMember raw = .ok i := by
  simp only [readMember_eq_ok_iff hv]
  constructor
  · rintro ⟨k, hk, hallows⟩
    obtain ⟨i, rfl⟩ := (hv k).mp hallows
    exact ⟨i, hk⟩
  · rintro ⟨i, hi⟩
    exact ⟨_, hi, (hv _).mpr ⟨i, rfl⟩⟩

theorem readMember_eq_error_iff :
    v.readMember raw = .error e ↔
      ¬ v.parameter.Admits raw ∧ e = (Problem.element v.parameter raw).error := by
  have hcheck : ∀ k, v.index? k = none ↔ ¬ v.parameter.Allows k := by
    intro k
    rw [hv k, Option.eq_none_iff_forall_ne_some, not_exists]
    simp only [ne_eq, v.index?_eq_some_iff]
  rw [readMember]
  rcases v.parameter.read_cases raw with ⟨k, hread, hadmits, herror⟩ | ⟨hread, hnot⟩
  · rw [hread, hadmits, herror, ← hcheck k]
    dsimp only
    cases v.index? k <;> simp [eq_comm]
  · rw [hread]
    simp [hnot, eq_comm]

theorem readMembers_eq_error_iff {elements : List (List Char)} :
    v.readMembers elements = .error e ↔
      ∃ before raw after, elements = before ++ raw :: after ∧
        (∀ x ∈ before, v.parameter.Admits x) ∧ ¬ v.parameter.Admits raw ∧
        e = (Problem.element v.parameter raw).error := by
  induction elements with
  | nil => simp [readMembers]
  | cons x rest ih =>
    cases hx : v.readMember x with
    | error e' =>
      obtain ⟨hnot, he'⟩ := (readMember_eq_error_iff hv).mp hx
      rw [readMembers_cons_of_error hx]
      constructor
      · rintro ⟨⟩
        exact ⟨[], x, rest, rfl, List.forall_mem_nil _, hnot, he'⟩
      · rintro ⟨before, raw, after, hsplit, hbefore, -, rfl⟩
        cases before with
        | nil =>
          obtain ⟨rfl, -⟩ := List.cons_eq_cons.mp hsplit
          rw [he']
        | cons y before =>
          obtain ⟨rfl, -⟩ := List.cons_eq_cons.mp hsplit
          exact absurd (hbefore x List.mem_cons_self) hnot
    | ok i =>
      have hadmits : v.parameter.Admits x := (admits_iff hv).mpr ⟨i, hx⟩
      rw [readMembers_cons_of_ok hx, map_eq_error_iff, ih]
      constructor
      · rintro ⟨before, raw, after, rfl, hbefore, hraw, he⟩
        exact ⟨x :: before, raw, after, rfl, List.forall_mem_cons.mpr ⟨hadmits, hbefore⟩, hraw, he⟩
      · rintro ⟨before, raw, after, hsplit, hbefore, hraw, he⟩
        cases before with
        | nil =>
          obtain ⟨rfl, -⟩ := List.cons_eq_cons.mp hsplit
          exact absurd hadmits hraw
        | cons y before =>
          obtain ⟨-, rfl⟩ := List.cons_eq_cons.mp hsplit
          exact ⟨before, raw, after, rfl, (List.forall_mem_cons.mp hbefore).2, hraw, he⟩

theorem exists_ofList?_of_readMembers {list : List Char} {members : List (Fin n)}
    (h : v.readMembers (list.splitOn ',') = .ok members) :
    ∃ s, Selection.ofList? members = some s := by
  obtain ⟨x, hx⟩ := List.exists_mem_of_ne_nil _ (List.splitOn_ne_nil ',' list)
  obtain ⟨i, hi⟩ := (exists_readMembers_iff hv).mp ⟨members, h⟩ x hx
  apply Selection.exists_ofList?_eq_some
  exact List.ne_nil_of_mem ((mem_of_readMembers hv h i).mpr ⟨x, hx, hi⟩)

theorem exists_readList_iff {list : List Char} :
    (∃ s, v.readList list = .ok s) ↔ ∀ x ∈ list.splitOn ',', v.parameter.Admits x := by
  have hadmits : ∀ x, v.parameter.Admits x ↔ ∃ i, IsInteger x (v.value i) := by
    intro x
    simp only [admits_iff hv, readMember_eq_ok_iff hv]
  simp only [hadmits, ← exists_readMembers_iff hv, readList_eq_ok_iff_readMembers hv,
    ← Selection.ofList?_eq_some_iff]
  constructor
  · rintro ⟨-, members, hmembers, -⟩
    exact ⟨members, hmembers⟩
  · rintro ⟨members, hmembers⟩
    obtain ⟨s, hs⟩ := exists_ofList?_of_readMembers hv hmembers
    exact ⟨s, members, hmembers, hs⟩

theorem readList_eq_error_iff {list : List Char} (hword : ∀ c ∈ list, isBlank c = false) :
    v.readList list = .error e ↔
      ∃ problem, v.parameter.FirstInList list problem ∧ e = problem.error := by
  have hblank : ∀ x ∈ list.splitOn ',', AllBlank x ↔ x.isEmpty = true := by
    intro x hx
    rw [List.isEmpty_iff]
    constructor
    · intro hall
      rw [List.eq_nil_iff_forall_not_mem]
      intro c hc
      have hfalse := hword c (mem_of_mem_splitOn hx hc)
      rw [hall c hc] at hfalse
      cases hfalse
    · rintro rfl
      exact List.forall_mem_nil _
  by_cases hempty : ∀ x ∈ list.splitOn ',', AllBlank x
  · have hall : (list.splitOn ',').all List.isEmpty = true :=
      List.all_eq_true.mpr fun x hx => (hblank x hx).mp (hempty x hx)
    rw [readList, if_pos hall, Except.error.injEq]
    constructor
    · rintro rfl
      exact ⟨.blankList v.parameter, .blank hempty, rfl⟩
    · rintro ⟨problem, hproblem, rfl⟩
      cases hproblem with
      | blank h => rfl
      | element hsome =>
        obtain ⟨x, hx, hnot⟩ := hsome
        exact absurd (hempty x hx) hnot
  · have hsome : ∃ x ∈ list.splitOn ',', ¬ AllBlank x := by
      by_contra hnone
      exact hempty fun x hx => by_contra fun hnot => hnone ⟨x, hx, hnot⟩
    have hread : v.readList list = .error e ↔ v.readMembers (list.splitOn ',') = .error e := by
      have hall : ¬ (list.splitOn ',').all List.isEmpty = true := by
        rw [List.all_eq_true]
        intro hall
        exact hempty fun x hx => (hblank x hx).mpr (hall x hx)
      rw [readList, if_neg hall]
      cases hmembers : v.readMembers (list.splitOn ',') with
      | error e' => simp
      | ok members =>
        obtain ⟨s, hs⟩ := exists_ofList?_of_readMembers hv hmembers
        simp [hs]
    rw [hread, readMembers_eq_error_iff hv]
    constructor
    · rintro ⟨before, raw, after, hlist, hbefore, hraw, rfl⟩
      exact ⟨_, .element hsome hlist hbefore hraw, rfl⟩
    · rintro ⟨problem, hproblem, rfl⟩
      cases hproblem with
      | blank h => exact absurd h hempty
      | element _ hlist hbefore hraw => exact ⟨_, _, _, hlist, hbefore, hraw, rfl⟩

end Reading
end Vocabulary

namespace Rule

variable {letter : RuleLetter} {args : List (List Char)}

theorem ofWords_eq_error_iff (hargs : ∀ arg ∈ args, IsWord arg)
    (harity : letter.Takes args.length) :
    ofWords letter args = .error e ↔
      ∃ problem, letter.FirstProblem args problem ∧ e = problem.error := by
  have hweekdays := @Vocabulary.readList_eq_error_iff e 7 weekdays Vocabulary.weekdays_isComplete
  have hdays := @Vocabulary.readList_eq_error_iff e 33 monthDays Vocabulary.monthDays_isComplete
  have hmonths := @Vocabulary.readList_eq_error_iff e 12 months Vocabulary.months_isComplete
  have hread := @Vocabulary.exists_readList_iff 33 monthDays Vocabulary.monthDays_isComplete
  cases letter with
  | y =>
    obtain rfl := List.length_eq_zero_iff.mp harity
    refine iff_of_false (by simp [ofWords]) ?_
    rintro ⟨problem, ⟨⟩, -⟩
  | d =>
    obtain ⟨raw, rfl⟩ := List.length_eq_one_iff.mp harity
    rw [ofWords, map_eq_error_iff, Period.read_eq_error_iff]
    constructor
    · rintro ⟨hraw, rfl⟩
      exact ⟨_, .dayCount hraw, rfl⟩
    · rintro ⟨problem, hproblem, rfl⟩
      cases hproblem with
      | dayCount hraw => exact ⟨hraw, rfl⟩
  | w =>
    obtain ⟨list, rfl⟩ := List.length_eq_one_iff.mp harity
    rw [ofWords, map_eq_error_iff, hweekdays (hargs _ List.mem_cons_self).not_blank]
    constructor
    · rintro ⟨problem, hproblem, rfl⟩
      exact ⟨problem, .weekdays hproblem, rfl⟩
    · rintro ⟨problem, hproblem, rfl⟩
      cases hproblem with
      | weekdays hproblem => exact ⟨problem, hproblem, rfl⟩
  | m =>
    rcases harity with harity | harity
    · obtain ⟨list, rfl⟩ := List.length_eq_one_iff.mp harity
      rw [ofWords, map_eq_error_iff, hdays (hargs _ List.mem_cons_self).not_blank]
      constructor
      · rintro ⟨problem, hproblem, rfl⟩
        exact ⟨problem, .monthDays hproblem, rfl⟩
      · rintro ⟨problem, hproblem, rfl⟩
        cases hproblem with
        | monthDays hproblem => exact ⟨problem, hproblem, rfl⟩
    · obtain ⟨list, names, rfl⟩ := List.length_eq_two.mp harity
      have hlist := hdays (hargs list List.mem_cons_self).not_blank
      have hnames := hmonths (hargs names (by simp)).not_blank
      rw [ofWords]
      cases hs : monthDays.readList list with
      | error e' =>
        rw [hs] at hlist
        dsimp only
        rw [Except.error.injEq] at hlist ⊢
        rw [hlist]
        constructor
        · rintro ⟨problem, hproblem, rfl⟩
          exact ⟨problem, .monthDays hproblem, rfl⟩
        · rintro ⟨problem, hproblem, rfl⟩
          cases hproblem with
          | monthDays hproblem => exact ⟨problem, hproblem, rfl⟩
          | months hall =>
            obtain ⟨s, hok⟩ := hread.mpr hall
            cases hs.symm.trans hok
      | ok s =>
        have hall := hread.mp ⟨s, hs⟩
        dsimp only
        rw [map_eq_error_iff, hnames]
        constructor
        · rintro ⟨problem, hproblem, rfl⟩
          exact ⟨problem, .months hall hproblem, rfl⟩
        · rintro ⟨problem, hproblem, rfl⟩
          cases hproblem with
          | monthDays hproblem => cases hs.symm.trans (hlist.mpr ⟨problem, hproblem, rfl⟩)
          | months _ hproblem => exact ⟨problem, hproblem, rfl⟩

/-- A rule with a known letter and a right number of parameters is rejected with the error that its
first problem is told with, and with no other one. It is the error that is described, unless a text
that is no integer begins with a literal of more than 64 bits. -/
theorem parse_first_problem (expr : String) (letter : RuleLetter) (args : List (List Char))
    (hwords : SplitsInto expr.toList (letter.text.toList :: args))
    (harity : letter.Takes args.length) :
    (∀ e, parse expr = .error e ↔
      ∃ problem, letter.FirstProblem args problem ∧ problem.IsTold e) ∧
    ∀ problem e, letter.FirstProblem args problem → problem.IsDescribedBy e →
      (parse expr = .error e ↔ ¬ problem.IsCutShort) := by
  have hargs : ∀ arg ∈ args, IsWord arg := (List.forall_mem_cons.mp hwords.isWord).2
  have hparse : parse expr = ofWords letter args := by
    rw [parse, splitsInto_iff.mp hwords]
    dsimp only
    rw [ofChars?_eq_some_iff.mpr rfl]
  constructor
  · intro e
    simp only [Problem.isTold_iff]
    rw [hparse, ofWords_eq_error_iff hargs harity]
  · intro problem e hproblem hdescribed
    have htold : parse expr = .error problem.error := by
      rw [hparse, ofWords_eq_error_iff hargs harity]
      exact ⟨problem, hproblem, rfl⟩
    rw [htold, Except.error.injEq, eq_comm, hdescribed.eq_error_iff]

/-- Of a bad list of days and a bad list of months the first one is told, by its first bad
element. -/
theorem parse_first_problem_days :
    SplitsInto "m 1,x,99 13".toList [['m'], "1,x,99".toList, "13".toList] ∧
    RuleLetter.m.Takes 2 ∧
    RuleLetter.m.FirstProblem ["1,x,99".toList, "13".toList] (.element .dayOfMonth ['x']) ∧
    parse "m 1,x,99 13" = .error (.malformedNumber .dayOfMonth "x") := by
  have hwords : SplitsInto "m 1,x,99 13".toList [['m'], "1,x,99".toList, "13".toList] :=
    splitsInto_iff.mpr (by decide)
  have harity : RuleLetter.m.Takes 2 := .inr rfl
  obtain ⟨hinteger, hshort⟩ := readInt64_eq_malformed_iff.mp
    (show readInt64 ['x'] = .malformed by decide)
  have hone : Parameter.dayOfMonth.Admits ['1'] :=
    Parameter.admits_iff.mpr ⟨1, by decide, .inl (by decide)⟩
  have hproblem : RuleLetter.m.FirstProblem ["1,x,99".toList, "13".toList]
      (.element .dayOfMonth ['x']) := by
    have hlist : "1,x,99".toList.splitOn ',' = [['1']] ++ ['x'] :: [['9', '9']] := by decide
    have hbefore := List.forall_mem_singleton.mpr hone
    refine .monthDays (.element ⟨['x'], ?_, by decide⟩ hlist hbefore ?_)
    · rw [hlist]
      decide
    · rintro ⟨k, hk, -⟩
      exact hinteger k hk
  refine ⟨hwords, harity, hproblem, ?_⟩
  exact ((parse_first_problem _ .m _ hwords harity).2 _ _ hproblem (.malformed hinteger)).mpr
    fun hcut => hshort hcut.2

/-- A count that ends in a letter is told to be out of range. -/
theorem parse_eq_outOfRange_of_no_integer :
    SplitsInto "d 99999999999999999999x".toList [['d'], "99999999999999999999x".toList] ∧
    RuleLetter.d.Takes 1 ∧
    RuleLetter.d.FirstProblem ["99999999999999999999x".toList]
      (.element .dayCount "99999999999999999999x".toList) ∧
    (∀ k, ¬ IsInteger "99999999999999999999x".toList k) ∧
    parse "d 99999999999999999999x" = .error (.outOfRange .dayCount int64Max) ∧
    parse "d 99999999999999999999x" ≠
      .error (.malformedNumber .dayCount "99999999999999999999x") := by
  have hinteger : ∀ k, ¬ IsInteger "99999999999999999999x".toList k := by
    intro k hk
    have hletter : 'x' ∉ "99999999999999999999x".toList := hk.not_mem (by decide)
    exact hletter (by decide)
  have hparse : parse "d 99999999999999999999x" = .error (.outOfRange .dayCount int64Max) := by
    decide +kernel
  refine ⟨splitsInto_iff.mpr (by decide), rfl, .dayCount ?_, hinteger, hparse, ?_⟩
  · rintro ⟨k, hk, -⟩
    exact hinteger k hk
  · rw [hparse]
    simp

end Rule

end Agenda
