import Agenda.Proofs.Rule.Matching
import Agenda.Proofs.Text.Numeral
import Agenda.Rule.Parser

/-!
# The language of rules

A rule is written as a letter and its parameters, with blanks between them, and a parameter as one
integer or as a list of integers with commas between them. The parser accepts just these texts and
answers the rule that the integers denote. So the same integers in another order, with repetitions
or in other literals denote the same rule.
-/

namespace Agenda

open Text

theorem map_eq_ok_iff {ε α β : Type} {f : α → β} {x : Except ε α} {b : β} :
    x.map f = .ok b ↔ ∃ a, x = .ok a ∧ f a = b := by
  cases x <;> simp [Except.map]

namespace Selection

variable {n : Nat}

theorem ext_mem {s t : Selection n} (h : ∀ i, i ∈ s ↔ i ∈ t) : s = t := by
  obtain ⟨sbits, hs⟩ := s
  obtain ⟨tbits, ht⟩ := t
  congr 1
  apply BitVec.eq_of_getLsbD_eq
  intro i hi
  exact Bool.eq_iff_iff.mpr (h ⟨i, hi⟩)

theorem exists_ofList?_eq_some {members : List (Fin n)} (h : members ≠ []) :
    ∃ s, ofList? members = some s := by
  obtain ⟨i, hi⟩ := List.exists_mem_of_ne_nil members h
  have hbits : bitsOf members ≠ 0#n := by
    intro hzero
    have hbit := (getLsbD_bitsOf members i).mpr hi
    rw [hzero, BitVec.getLsbD_zero] at hbit
    cases hbit
  exact ⟨_, dif_pos hbits⟩

theorem ofList?_eq_some_iff {members : List (Fin n)} {s : Selection n} :
    ofList? members = some s ↔ ∀ i, i ∈ s ↔ i ∈ members := by
  constructor
  · exact mem_of_ofList?
  · intro h
    obtain ⟨i, hi⟩ := s.exists_mem
    obtain ⟨t, ht⟩ := exists_ofList?_eq_some (List.ne_nil_of_mem ((h i).mp hi))
    have hts : t = s := ext_mem fun j => (mem_of_ofList? ht j).trans (h j).symm
    rw [ht, hts]

end Selection

/-- The values that the parameter may have. -/
def Parameter.Allows : Parameter → Int → Prop
  | dayCount, k => 1 ≤ k ∧ k ≤ 400
  | weekday, k => 1 ≤ k ∧ k ≤ 7
  | dayOfMonth, k => (1 ≤ k ∧ k ≤ 31) ∨ k = -1 ∨ k = -2
  | month, k => 1 ≤ k ∧ k ≤ 12

theorem Parameter.Allows.range {parameter : Parameter} {k : Int} (h : parameter.Allows k) :
    int64Min ≤ k ∧ k ≤ int64Max := by
  unfold int64Min int64Max
  cases parameter <;> simp only [Allows] at h <;> omega

theorem Parameter.read_eq_ok_iff (parameter : Parameter) {raw : List Char} {k : Int} :
    parameter.read raw = .ok k ↔ IsInteger raw k ∧ int64Min ≤ k ∧ k ≤ int64Max := by
  rw [← readInt64_eq_value_iff, read]
  cases readInt64 raw <;> simp

theorem Period.read_eq_ok_iff {raw : List Char} {period : Period} :
    Period.read raw = .ok period ↔ IsInteger raw period.days := by
  have hof : ∀ n : Int, ofInt? n = some period ↔ n = period.days := by
    intro n
    obtain ⟨days, hone, hmax⟩ := period
    rw [Period.ofInt?]
    split
    · rw [Option.some.injEq, Period.mk.injEq]
      dsimp only
      omega
    · simp only [reduceCtorEq, false_iff]
      omega
  have hrange : Parameter.dayCount.Allows period.days := by
    have hone := period.one_le
    have hmax : period.days ≤ 400 := period.le_max
    exact ⟨by omega, by omega⟩
  unfold Period.read
  constructor
  · intro h
    split at h
    · cases h
    · rename_i n hn
      split at h
      · cases h
      · rename_i p hp
        cases h
        rw [Parameter.read_eq_ok_iff] at hn
        rw [← (hof n).mp hp]
        exact hn.1
  · intro h
    rw [Parameter.dayCount.read_eq_ok_iff.mpr ⟨h, hrange.range⟩]
    dsimp only
    rw [(hof period.days).mpr rfl]

/-- A literal of the integer stands in the list, between its commas. -/
def HasElement (list : List Char) (k : Int) : Prop := ∃ e ∈ list.splitOn ',', IsInteger e k

namespace Vocabulary

variable {n : Nat} {v : Vocabulary n}

/-- The values that the parameter may have are those that name a member. -/
def IsComplete (v : Vocabulary n) : Prop := ∀ k, v.parameter.Allows k ↔ ∃ i, v.value i = k

theorem counted_isComplete {parameter : Parameter} {n : Nat}
    (h : ∀ k, parameter.Allows k ↔ 1 ≤ k ∧ k ≤ n) : (counted parameter n).IsComplete := by
  intro k
  rw [show (counted parameter n).parameter = parameter from rfl, h k]
  constructor
  · rintro ⟨hone, hle⟩
    refine ⟨⟨(k - 1).toNat, by omega⟩, ?_⟩
    change ((k - 1).toNat : Int) + 1 = k
    omega
  · rintro ⟨i, rfl⟩
    change 1 ≤ (i.val : Int) + 1 ∧ (i.val : Int) + 1 ≤ n
    have hlt := i.isLt
    omega

theorem weekdays_isComplete : weekdays.IsComplete := counted_isComplete fun _ => Iff.rfl

theorem months_isComplete : months.IsComplete := counted_isComplete fun _ => Iff.rfl

theorem monthDays_isComplete : monthDays.IsComplete := by
  intro k
  change (1 ≤ k ∧ k ≤ 31) ∨ k = -1 ∨ k = -2 ↔ _
  constructor
  · rintro (⟨hone, hle⟩ | rfl | rfl)
    · have hlt : (k - 1).toNat < lastPlace := by
        unfold lastPlace
        omega
      refine ⟨⟨(k - 1).toNat, hlt.trans (by decide)⟩, ?_⟩
      rw [value_monthDays_of_lt hlt]
      dsimp only
      omega
    · exact ⟨⟨lastPlace, by decide⟩, rfl⟩
    · exact ⟨⟨secondLastPlace, by decide⟩, rfl⟩
  · rintro ⟨i, rfl⟩
    have hplace := value_monthDays_cases i
    unfold lastPlace at hplace
    omega

/-- The elements of the list are literals of allowed values, and the selection is the set of
these values. -/
structure Denotes (v : Vocabulary n) (list : List Char) (s : Selection n) : Prop where
  allowed : ∀ e ∈ list.splitOn ',', ∃ k, IsInteger e k ∧ v.parameter.Allows k
  lists_iff : ∀ k, v.Lists s k ↔ HasElement list k

section Reading

variable (hv : v.IsComplete)

include hv

theorem readMember_eq_ok_iff {e : List Char} {i : Fin n} :
    v.readMember e = .ok i ↔ IsInteger e (v.value i) := by
  have hallows : v.parameter.Allows (v.value i) := (hv _).mpr ⟨i, rfl⟩
  unfold readMember
  constructor
  · intro h
    split at h
    · cases h
    · rename_i k hk
      split at h
      · cases h
      · rename_i j hj
        cases h
        rw [(v.index?_eq_some_iff k i).mp hj]
        exact ((v.parameter.read_eq_ok_iff).mp hk).1
  · intro h
    rw [(v.parameter.read_eq_ok_iff).mpr ⟨h, hallows.range⟩]
    dsimp only
    rw [(v.index?_eq_some_iff _ i).mpr rfl]

theorem mem_of_readMembers {elements : List (List Char)} {members : List (Fin n)}
    (h : v.readMembers elements = .ok members) (i : Fin n) :
    i ∈ members ↔ ∃ e ∈ elements, IsInteger e (v.value i) := by
  induction elements generalizing members with
  | nil =>
    cases h
    simp
  | cons e rest ih =>
    rw [readMembers] at h
    split at h
    · cases h
    · rename_i j hj
      split at h
      · cases h
      · rename_i is his
        cases h
        rw [readMember_eq_ok_iff hv] at hj
        have hji : IsInteger e (v.value i) ↔ i = j :=
          ⟨fun hi => v.value_injective (hi.unique hj), fun hij => hij ▸ hj⟩
        rw [List.mem_cons, ih his, List.exists_mem_cons_iff, hji]

theorem exists_readMembers_iff {elements : List (List Char)} :
    (∃ members, v.readMembers elements = .ok members) ↔
      ∀ e ∈ elements, ∃ i, IsInteger e (v.value i) := by
  induction elements with
  | nil => simp [readMembers]
  | cons e rest ih =>
    rw [List.forall_mem_cons, ← ih, readMembers]
    constructor
    · rintro ⟨members, h⟩
      split at h
      · cases h
      · rename_i i hi
        split at h
        · cases h
        · rename_i is his
          exact ⟨⟨i, (readMember_eq_ok_iff hv).mp hi⟩, is, his⟩
    · rintro ⟨⟨i, hi⟩, is, his⟩
      rw [(readMember_eq_ok_iff hv).mpr hi, his]
      exact ⟨i :: is, rfl⟩

/-- A list of blank elements only is no list of integers. -/
theorem readList_eq_ok_iff_readMembers {list : List Char} {s : Selection n} :
    v.readList list = .ok s ↔
      ∃ members, v.readMembers (list.splitOn ',') = .ok members ∧ ∀ i, i ∈ s ↔ i ∈ members := by
  unfold readList
  dsimp only
  split
  · rename_i hempty
    simp only [reduceCtorEq, false_iff]
    rintro ⟨members, hmembers, hs⟩
    obtain ⟨i, hi⟩ := s.exists_mem
    obtain ⟨e, he, hei⟩ := (mem_of_readMembers hv hmembers i).mp ((hs i).mp hi)
    exact hei.ne_nil (List.isEmpty_iff.mp (List.all_eq_true.mp hempty e he))
  · simp only [← Selection.ofList?_eq_some_iff]
    cases v.readMembers (list.splitOn ',') with
    | error e => simp
    | ok members => cases hs : Selection.ofList? members <;> simp [hs]

theorem readList_eq_ok_iff {list : List Char} {s : Selection n} :
    v.readList list = .ok s ↔ v.Denotes list s := by
  have hallowed : (∀ e ∈ list.splitOn ',', ∃ k, IsInteger e k ∧ v.parameter.Allows k) ↔
      ∃ members, v.readMembers (list.splitOn ',') = .ok members := by
    rw [exists_readMembers_iff hv]
    apply forall₂_congr
    intro e _
    constructor
    · rintro ⟨k, hk, hallows⟩
      obtain ⟨i, rfl⟩ := (hv k).mp hallows
      exact ⟨i, hk⟩
    · rintro ⟨i, hi⟩
      exact ⟨_, hi, (hv _).mpr ⟨i, rfl⟩⟩
  have hlists : ∀ members, v.readMembers (list.splitOn ',') = .ok members →
      ((∀ i, i ∈ s ↔ i ∈ members) ↔ ∀ k, v.Lists s k ↔ HasElement list k) := by
    intro members hmembers
    constructor
    · intro hs k
      constructor
      · rintro ⟨i, hi, rfl⟩
        exact (mem_of_readMembers hv hmembers i).mp ((hs i).mp hi)
      · rintro ⟨e, he, hk⟩
        obtain ⟨i, hi⟩ := (exists_readMembers_iff hv).mp ⟨members, hmembers⟩ e he
        refine ⟨i, (hs i).mpr ?_, hi.unique hk⟩
        exact (mem_of_readMembers hv hmembers i).mpr ⟨e, he, hi⟩
    · intro hs i
      rw [← v.lists_value, hs, mem_of_readMembers hv hmembers]
      rfl
  rw [readList_eq_ok_iff_readMembers hv]
  constructor
  · rintro ⟨members, hmembers, hs⟩
    exact ⟨hallowed.mpr ⟨members, hmembers⟩, (hlists members hmembers).mp hs⟩
  · rintro ⟨hall, hs⟩
    obtain ⟨members, hmembers⟩ := hallowed.mp hall
    exact ⟨members, hmembers, (hlists members hmembers).mpr hs⟩

end Reading

end Vocabulary

/-- The second parameter lists the same integers as the first one, in whatever order, number and
form. -/
structure Respells (a b : List Char) : Prop where
  isInteger : ∀ e ∈ b.splitOn ',', ∃ k, IsInteger e k
  hasElement_iff : ∀ k, HasElement a k ↔ HasElement b k

theorem Respells.denotes {n : Nat} {v : Vocabulary n} {a b : List Char} {s : Selection n}
    (h : Respells a b) (ha : v.Denotes a s) : v.Denotes b s where
  allowed e he := by
    obtain ⟨k, hk⟩ := h.isInteger e he
    obtain ⟨e', he', hk'⟩ := (h.hasElement_iff k).mpr ⟨e, he, hk⟩
    obtain ⟨l, hl, hallowed⟩ := ha.allowed e' he'
    exact ⟨k, hk, hl.unique hk' ▸ hallowed⟩
  lists_iff k := (ha.lists_iff k).trans (h.hasElement_iff k)

theorem Vocabulary.Denotes.respells {n : Nat} {v : Vocabulary n} {a b : List Char}
    {s : Selection n} (ha : v.Denotes a s) (hb : v.Denotes b s) : Respells a b where
  isInteger e he := by
    obtain ⟨k, hk, -⟩ := hb.allowed e he
    exact ⟨k, hk⟩
  hasElement_iff k := (ha.lists_iff k).symm.trans (hb.lists_iff k)

theorem Respells.isInteger_of_not_mem {a b : List Char} {k : Int} (h : Respells a b)
    (ha : IsInteger a k) (hb : ',' ∉ b) : IsInteger b k := by
  have helement : HasElement a k := ⟨a, by simp [List.splitOn_eq_singleton ha.not_mem_comma], ha⟩
  obtain ⟨e, he, hk⟩ := (h.hasElement_iff k).mp helement
  rw [List.splitOn_eq_singleton hb, List.mem_singleton] at he
  exact he ▸ hk

namespace Rule

/-- The words are the letter and the parameters of the rule. -/
inductive IsWritten : List (List Char) → Rule → Prop
  | yearly : IsWritten [['y']] yearly
  | everyDays {count : List Char} {period : Period} (h : IsInteger count period.days) :
      IsWritten [['d'], count] (everyDays period)
  | weekly {list : List Char} {days : Selection 7} (h : weekdays.Denotes list days) :
      IsWritten [['w'], list] (weekly days)
  | everyMonth {list : List Char} {days : Selection 33} (h : monthDays.Denotes list days) :
      IsWritten [['m'], list] (monthly days none)
  | inMonths {list names : List Char} {days : Selection 33} {selected : Selection 12}
      (h : monthDays.Denotes list days) (hnames : months.Denotes names selected) :
      IsWritten [['m'], list, names] (monthly days (some selected))

theorem ofWords_eq_ok_iff {letter : RuleLetter} {args : List (List Char)} {rule : Rule} :
    ofWords letter args = .ok rule ↔ IsWritten (letter.text.toList :: args) rule := by
  have hweekdays := @Vocabulary.readList_eq_ok_iff 7 weekdays Vocabulary.weekdays_isComplete
  have hmonthDays := @Vocabulary.readList_eq_ok_iff 33 monthDays Vocabulary.monthDays_isComplete
  have hmonths := @Vocabulary.readList_eq_ok_iff 12 months Vocabulary.months_isComplete
  constructor
  · intro h
    unfold ofWords at h
    split at h
    · cases h
      exact .yearly
    · obtain ⟨period, hperiod, rfl⟩ := map_eq_ok_iff.mp h
      exact .everyDays (Period.read_eq_ok_iff.mp hperiod)
    · obtain ⟨days, hdays, rfl⟩ := map_eq_ok_iff.mp h
      exact .weekly (hweekdays.mp hdays)
    · obtain ⟨days, hdays, rfl⟩ := map_eq_ok_iff.mp h
      exact .everyMonth (hmonthDays.mp hdays)
    · split at h
      · cases h
      · rename_i days hdays
        obtain ⟨selected, hselected, rfl⟩ := map_eq_ok_iff.mp h
        exact .inMonths (hmonthDays.mp hdays) (hmonths.mp hselected)
    · cases h
  · intro h
    cases letter <;> cases h
    case y.yearly => rfl
    case d.everyDays h => exact map_eq_ok_iff.mpr ⟨_, Period.read_eq_ok_iff.mpr h, rfl⟩
    case w.weekly h => exact map_eq_ok_iff.mpr ⟨_, hweekdays.mpr h, rfl⟩
    case m.everyMonth h => exact map_eq_ok_iff.mpr ⟨_, hmonthDays.mpr h, rfl⟩
    case m.inMonths h hnames =>
      rw [ofWords, hmonthDays.mpr h]
      exact map_eq_ok_iff.mpr ⟨_, hmonths.mpr hnames, rfl⟩

theorem ofChars?_eq_some_iff {word : List Char} {letter : RuleLetter} :
    RuleLetter.ofChars? word = some letter ↔ word = letter.text.toList := by
  constructor
  · intro h
    unfold RuleLetter.ofChars? at h
    split at h <;> cases h <;> rfl
  · rintro rfl
    cases letter <;> rfl

theorem IsWritten.exists_letter {ws : List (List Char)} {rule : Rule} (h : IsWritten ws rule) :
    ∃ (letter : RuleLetter) (args : List (List Char)), ws = letter.text.toList :: args := by
  cases h with
  | yearly => exact ⟨.y, _, rfl⟩
  | everyDays => exact ⟨.d, _, rfl⟩
  | weekly => exact ⟨.w, _, rfl⟩
  | everyMonth => exact ⟨.m, _, rfl⟩
  | inMonths => exact ⟨.m, _, rfl⟩

theorem parse_eq_ok_iff {expr : String} {rule : Rule} :
    parse expr = .ok rule ↔ ∃ ws, SplitsInto expr.toList ws ∧ IsWritten ws rule := by
  constructor
  · intro h
    unfold parse at h
    split at h
    · cases h
    · rename_i word args hwords
      split at h
      · cases h
      · rename_i letter hletter
        rw [ofChars?_eq_some_iff] at hletter
        rw [ofWords_eq_ok_iff, ← hletter] at h
        exact ⟨word :: args, splitsInto_iff.mpr hwords, h⟩
  · rintro ⟨ws, hws, h⟩
    obtain ⟨letter, args, rfl⟩ := h.exists_letter
    rw [parse, splitsInto_iff.mp hws]
    dsimp only
    rw [ofChars?_eq_some_iff.mpr rfl]
    exact ofWords_eq_ok_iff.mpr h

theorem IsWritten.respell {letter : List Char} {args args' : List (List Char)} {rule : Rule}
    (h : IsWritten (letter :: args) rule) (hargs : List.Forall₂ Respells args args')
    (hcount : letter = ['d'] → ∀ a ∈ args', ',' ∉ a) : IsWritten (letter :: args') rule := by
  cases h with
  | yearly =>
    cases hargs
    exact .yearly
  | everyDays h =>
    rcases hargs with _ | ⟨hr, ⟨⟩⟩
    exact .everyDays (hr.isInteger_of_not_mem h (hcount rfl _ List.mem_cons_self))
  | weekly h =>
    rcases hargs with _ | ⟨hr, ⟨⟩⟩
    exact .weekly (hr.denotes h)
  | everyMonth h =>
    rcases hargs with _ | ⟨hr, ⟨⟩⟩
    exact .everyMonth (hr.denotes h)
  | inMonths h hnames =>
    rcases hargs with _ | ⟨hr, _ | ⟨hr', ⟨⟩⟩⟩
    exact .inMonths (hr.denotes h) (hr'.denotes hnames)

/-- The parser accepts the written forms of rules and nothing else, with the rule that is written.
The blanks around the words do not matter to it, nor do the order, the number and the literals of
the integers in a list. -/
theorem parse_accepts_exactly (expr : String) :
    (∀ rule, parse expr = .ok rule ↔ ∃ ws, SplitsInto expr.toList ws ∧ IsWritten ws rule) ∧
    ∀ (expr' : String) (rule : Rule) (letter : List Char) (args args' : List (List Char)),
      parse expr = .ok rule → SplitsInto expr.toList (letter :: args) →
      SplitsInto expr'.toList (letter :: args') → List.Forall₂ Respells args args' →
      (letter = ['d'] → ∀ a ∈ args', ',' ∉ a) → parse expr' = .ok rule := by
  refine ⟨fun rule => parse_eq_ok_iff, ?_⟩
  intro expr' rule letter args args' hrule hwords hwords' hargs hcount
  obtain ⟨ws, hws, hwritten⟩ := parse_eq_ok_iff.mp hrule
  rw [splitsInto_iff] at hws hwords
  rw [← hws, hwords] at hwritten
  exact parse_eq_ok_iff.mpr ⟨_, hwords', hwritten.respell hargs hcount⟩

/-- A plus sign, zeros, a repetition and a no-break space do not change the rule of Mondays and
Fridays. -/
theorem parse_accepts_exactly_weekdays : ∃ rule, parse "w 5,1" = .ok rule ∧
    SplitsInto "w 5,1".toList [['w'], "5,1".toList] ∧
    SplitsInto " w\u00A0+01,005,1".toList [['w'], "+01,005,1".toList] ∧
    List.Forall₂ Respells ["5,1".toList] ["+01,005,1".toList] ∧
    parse " w\u00A0+01,005,1" = .ok rule := by
  have hreads := @Vocabulary.readList_eq_ok_iff 7 weekdays Vocabulary.weekdays_isComplete
  have hrule : parse "w 5,1" = .ok (weekly ⟨0b0010001#7, by decide⟩) := by decide
  have hwords : SplitsInto "w 5,1".toList [['w'], "5,1".toList] := splitsInto_iff.mpr (by decide)
  have hwords' : SplitsInto " w\u00A0+01,005,1".toList [['w'], "+01,005,1".toList] :=
    splitsInto_iff.mpr (by decide)
  have hfirst : weekdays.Denotes "5,1".toList ⟨0b0010001#7, by decide⟩ := hreads.mp (by decide)
  have hsecond : weekdays.Denotes "+01,005,1".toList ⟨0b0010001#7, by decide⟩ :=
    hreads.mp (by decide)
  have hargs := List.Forall₂.cons (hfirst.respells hsecond) .nil
  exact ⟨_, hrule, hwords, hwords', hargs,
    (parse_accepts_exactly "w 5,1").2 _ _ _ _ _ hrule hwords hwords' hargs (by decide)⟩

end Rule

end Agenda
