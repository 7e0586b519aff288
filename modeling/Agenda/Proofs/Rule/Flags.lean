import Agenda.Proofs.Rule.FirstProblem
import Agenda.Proofs.Rule.FixedWidth

/-!
# Selections as flags in a word

A selection can be kept in a machine word with one flag for each number: 8 bits for weekdays, 16
for months, and 64 for days of the month, where two flags above the 31 days stand for the last day
of the month and the one before it. Here reading, listing and testing are written with shifts and
masks of such words, each on its own. They agree with the selections that run, so a word that is
read from a list holds the numbers of the list and nothing else, whatever their order and
repetitions.
-/

namespace Agenda

open Text

/-- The kinds of selections in a rule. -/
inductive Family
  | weekdays
  | months
  | monthDays

namespace Family

abbrev size : Family → Nat
  | weekdays => 7
  | months => 12
  | monthDays => 33

def vocabulary : (f : Family) → Vocabulary f.size
  | weekdays => Agenda.weekdays
  | months => Agenda.months
  | monthDays => Agenda.monthDays

/-- The number names the day: its weekday, its month, or its place in the month. -/
def Names : Family → Day → Int → Prop
  | weekdays, d, k => k = d.isoWeekday
  | months, d, k => k = d.month
  | monthDays, d, k => d.date.IsNamedBy k

instance (f : Family) (d : Day) (k : Int) : Decidable (f.Names d k) :=
  match f with
  | weekdays => inferInstanceAs (Decidable (k = d.isoWeekday))
  | months => inferInstanceAs (Decidable (k = d.month))
  | monthDays => inferInstanceAs (Decidable (d.date.IsNamedBy k))

def admits : (f : Family) → Selection f.size → Day → Except CalendarFault Bool
  | weekdays, s, d => .ok (s.admitsWeekday d)
  | months, s, d => .ok (s.admitsMonth d)
  | monthDays, s, d => s.admitsMonthDay d

/-- The order of a written selection: the days of the month as they are counted, and after them the
places from its end, the last one first. -/
def Precedes (a b : Int) : Prop := (0 < a ∧ a < b) ∨ (0 < a ∧ b < 0) ∨ (b < a ∧ a < 0)

abbrev width : Family → Nat
  | weekdays => 8
  | months => 16
  | monthDays => 64

/-- The flag of a number from 1 to `n`. -/
def countedFlag? (width n : Nat) (k : Int) : Option (BitVec width) :=
  if 1 ≤ k ∧ k ≤ n then some ((1 : BitVec width) <<< (k - 1).toNat) else none

def lastFlag : BitVec 64 := (1 : BitVec 64) <<< lastPlace

def secondLastFlag : BitVec 64 := (1 : BitVec 64) <<< secondLastPlace

def flag? : (f : Family) → Int → Option (BitVec f.width)
  | weekdays, k => countedFlag? 8 7 k
  | months, k => countedFlag? 16 12 k
  | monthDays, k =>
    if k = -1 then some lastFlag
    else if k = -2 then some secondLastFlag
    else countedFlag? 64 31 k

/-- The bits that stand for something. -/
def all : (f : Family) → BitVec f.width
  | weekdays => 0x7F#8
  | months => 0xFFF#16
  | monthDays => (((1 : BitVec 64) <<< 31 - 1) ||| lastFlag ||| secondLastFlag : BitVec 64)

def hasFlag {width : Nat} (word flag : BitVec width) : Bool := word &&& flag == flag

/-- The word, if it is not zero and all its bits stand for something. -/
def checked (f : Family) (word : BitVec f.width) : Option (BitVec f.width) :=
  if word ≠ 0#f.width ∧ hasFlag f.all word then some word else none

/-- Inserts the flags of the elements into a word. -/
def readFlags (f : Family) (word : BitVec f.width) :
    List (List Char) → Except RuleError (BitVec f.width)
  | [] => .ok word
  | raw :: rest =>
    match f.vocabulary.parameter.read raw with
    | .error e => .error e
    | .ok k =>
      match f.flag? k with
      | none => .error (.outOfRange f.vocabulary.parameter k)
      | some flag => f.readFlags (word ||| flag) rest

def readWord (f : Family) (raw : List Char) : Except RuleError (BitVec f.width) :=
  let elements := raw.splitOn ','
  if elements.all List.isEmpty then .error (.emptyList f.vocabulary.parameter)
  else
    match f.readFlags 0#f.width elements with
    | .error e => .error e
    | .ok word =>
      match f.checked word with
      | none => .error (.emptyList f.vocabulary.parameter)
      | some word => .ok word

/-- The word has the bit of the number `k`, counted from 1. -/
def hasBit {width : Nat} (word : BitVec width) (k : Nat) : Bool :=
  word &&& (1 : BitVec width) <<< (k - 1) != 0

/-- The numbers from 1 to `n` whose bits the word has. -/
def countedNumbers {width : Nat} (n : Nat) (word : BitVec width) : List Int :=
  ((List.range' 1 n).filter (hasBit word)).map Nat.cast

/-- The numbers that the word holds, as they are written. -/
def numbers : (f : Family) → BitVec f.width → List Int
  | weekdays, word => countedNumbers 7 word
  | months, word => countedNumbers 12 word
  | monthDays, word =>
    countedNumbers 31 word ++
      ([((-1 : Int), lastFlag), (-2, secondLastFlag)].filter fun p => hasFlag word p.2).map Prod.fst

def admitsBy : (f : Family) → BitVec f.width → Day → Except CalendarFault Bool
  | weekdays, word, d => .ok ((countedFlag? 8 7 d.isoWeekday).any (hasFlag word))
  | months, word, d => .ok ((countedFlag? 16 12 d.month).any (hasFlag word))
  | monthDays, word, d =>
    if hasBit word d.dayOfMonth then .ok true
    else
      match d.lastDayOfMonth with
      | .error e => .error e
      | .ok length =>
        .ok ((hasFlag word lastFlag && d.dayOfMonth == length) ||
          (hasFlag word secondLastFlag && d.dayOfMonth + 1 == length))

def word (f : Family) (s : Selection f.size) : BitVec f.width := s.bits.setWidth f.width

section Bits

variable {width n i : Nat} {b : BitVec width} {f : Family}

theorem size_le_width (f : Family) : f.size ≤ f.width := by
  cases f <;> decide

theorem hasFlag_shiftLeft (hi : i < width) :
    hasFlag b ((1 : BitVec width) <<< i) = b.getLsbD i := by
  have hmask : (1 : BitVec width) <<< i = BitVec.twoPow width i := (BitVec.twoPow_eq width i).symm
  rw [hasFlag, hmask, BitVec.and_twoPow]
  cases b.getLsbD i with
  | false => simpa using (FixedWidth.twoPow_ne_zero hi).symm
  | true => simp

theorem hasBit_eq {k : Nat} (hk : k - 1 < width) : hasBit b k = b.getLsbD (k - 1) :=
  FixedWidth.and_shiftLeft_ne_zero b hk

theorem getLsbD_word (s : Selection f.size) (i : Nat) :
    (f.word s).getLsbD i = s.contains i := by
  rw [word, BitVec.getLsbD_setWidth, Selection.contains]
  cases hbit : s.bits.getLsbD i with
  | false => rw [Bool.and_false]
  | true =>
    rw [decide_eq_true ((BitVec.lt_of_getLsbD hbit).trans_le f.size_le_width), Bool.and_true]

theorem getLsbD_all (hi : i < f.width) : f.all.getLsbD i = decide (i < f.size) := by
  cases f with
  | weekdays => exact (by decide : ∀ i < 8, (0x7F#8).getLsbD i = decide (i < 7)) i hi
  | months => exact (by decide : ∀ i < 16, (0xFFF#16).getLsbD i = decide (i < 12)) i hi
  | monthDays => exact (by decide : ∀ i < 64, (all monthDays).getLsbD i = decide (i < 33)) i hi

end Bits

section Reading

variable {f : Family} {s : Selection f.size} {list : List Char} {members : List (Fin f.size)}

theorem countedFlag?_eq {width n : Nat} (parameter : Parameter) (k : Int) :
    countedFlag? width n k = ((Vocabulary.counted parameter n).index? k).map fun i : Fin n =>
      BitVec.twoPow width i := by
  unfold countedFlag? Vocabulary.counted
  dsimp only
  split_ifs
  · exact congrArg some (BitVec.twoPow_eq width _).symm
  · rfl

/-- The flag of a number is the bit at the place that the number names. -/
theorem flag?_eq (f : Family) (k : Int) :
    f.flag? k = (f.vocabulary.index? k).map fun i : Fin f.size => BitVec.twoPow f.width i := by
  cases f with
  | weekdays => exact countedFlag?_eq .weekday k
  | months => exact countedFlag?_eq .month k
  | monthDays =>
    by_cases hlast : k = -1
    · subst hlast
      exact congrArg some (BitVec.twoPow_eq 64 lastPlace).symm
    by_cases hsecond : k = -2
    · subst hsecond
      exact congrArg some (BitVec.twoPow_eq 64 secondLastPlace).symm
    have hflag : flag? monthDays k = countedFlag? 64 31 k := (if_neg hlast).trans (if_neg hsecond)
    have hindex : Agenda.monthDays.index? k =
        if h : 1 ≤ k ∧ k ≤ 31 then some ⟨(k - 1).toNat, by omega⟩ else none :=
      (if_neg hlast).trans (if_neg hsecond)
    rw [hflag, countedFlag?, vocabulary, hindex]
    by_cases hday : 1 ≤ k ∧ k ≤ 31
    · rw [dif_pos hday]
      exact (if_pos hday).trans (congrArg some (BitVec.twoPow_eq 64 _).symm)
    · rw [dif_neg hday]
      exact if_neg hday

/-- The word with the bits of the members. -/
def insertAll (f : Family) (word : BitVec f.width) (members : List (Fin f.size)) :
    BitVec f.width :=
  members.foldl (fun word (i : Fin f.size) => word ||| BitVec.twoPow f.width i) word

theorem readFlags_eq (word : BitVec f.width) (elements : List (List Char)) :
    f.readFlags word elements = (f.vocabulary.readMembers elements).map (f.insertAll word) := by
  induction elements generalizing word with
  | nil => rfl
  | cons raw rest ih =>
    rw [readFlags, Vocabulary.readMembers, Vocabulary.readMember]
    cases f.vocabulary.parameter.read raw with
    | error e => rfl
    | ok k =>
      dsimp only
      rw [flag?_eq]
      cases f.vocabulary.index? k with
      | none => rfl
      | some i =>
        dsimp only [Option.map_some]
        rw [ih]
        cases f.vocabulary.readMembers rest <;> rfl

theorem getLsbD_insertAll (word : BitVec f.width) (members : List (Fin f.size)) (i : Nat) :
    (f.insertAll word members).getLsbD i = true ↔
      word.getLsbD i = true ∨ ∃ j ∈ members, (j : Nat) = i := by
  induction members generalizing word with
  | nil => simp [insertAll]
  | cons j rest ih =>
    have hstep : f.insertAll word (j :: rest) =
        f.insertAll (word ||| BitVec.twoPow f.width j) rest := rfl
    have hj : (j : Nat) < f.width := j.isLt.trans_le f.size_le_width
    rw [hstep, ih, BitVec.getLsbD_or, BitVec.getLsbD_twoPow, List.exists_mem_cons_iff]
    simp [hj, or_assoc]

theorem insertAll_eq_word (h : Selection.ofList? members = some s) :
    f.insertAll 0#f.width members = f.word s := by
  apply BitVec.eq_of_getLsbD_eq
  intro i hi
  rw [Bool.eq_iff_iff, getLsbD_insertAll, getLsbD_word, BitVec.getLsbD_zero]
  constructor
  · rintro (hzero | ⟨j, hj, rfl⟩)
    · cases hzero
    · exact (Selection.mem_of_ofList? h j).mpr hj
  · intro hbit
    have hlt : i < f.size := BitVec.lt_of_getLsbD hbit
    exact .inr ⟨⟨i, hlt⟩, (Selection.mem_of_ofList? h ⟨i, hlt⟩).mp hbit, rfl⟩

theorem word_ne_zero (s : Selection f.size) : f.word s ≠ 0#f.width := by
  obtain ⟨i, hi⟩ := s.exists_mem
  intro hzero
  rw [Selection.mem_def, ← getLsbD_word, hzero, BitVec.getLsbD_zero] at hi
  cases hi

theorem word_and_not_all (s : Selection f.size) : f.word s &&& ~~~f.all = 0#f.width := by
  apply BitVec.eq_of_getLsbD_eq
  intro i hi
  rw [BitVec.getLsbD_and, BitVec.getLsbD_not, getLsbD_word, getLsbD_all hi, BitVec.getLsbD_zero]
  cases hbit : s.contains i with
  | false => rfl
  | true => simp [BitVec.lt_of_getLsbD hbit]

theorem checked_word (s : Selection f.size) : f.checked (f.word s) = some (f.word s) := by
  have hall : hasFlag f.all (f.word s) = true := by
    rw [hasFlag, beq_iff_eq]
    apply BitVec.eq_of_getLsbD_eq
    intro i hi
    rw [BitVec.getLsbD_and, getLsbD_word, getLsbD_all hi]
    cases hbit : s.contains i with
    | false => rw [Bool.and_false]
    | true => simp [BitVec.lt_of_getLsbD hbit]
  rw [checked, if_pos ⟨f.word_ne_zero s, hall⟩]

theorem isComplete (f : Family) : f.vocabulary.IsComplete := by
  cases f
  · exact Vocabulary.weekdays_isComplete
  · exact Vocabulary.months_isComplete
  · exact Vocabulary.monthDays_isComplete

/-- What has been read from the elements of a list always passes the check. -/
theorem exists_word_of_readFlags {word : BitVec f.width}
    (h : f.readFlags 0#f.width (list.splitOn ',') = .ok word) : ∃ s, word = f.word s := by
  rw [readFlags_eq, map_eq_ok_iff] at h
  obtain ⟨members, hmembers, rfl⟩ := h
  obtain ⟨s, hs⟩ := Vocabulary.exists_ofList?_of_readMembers f.isComplete hmembers
  exact ⟨s, insertAll_eq_word hs⟩

/-- Reading a word is reading a selection, the errors included. -/
theorem readWord_eq (list : List Char) :
    f.readWord list = (f.vocabulary.readList list).map f.word := by
  unfold readWord Vocabulary.readList
  dsimp only
  split
  · rfl
  · rw [readFlags_eq]
    cases hmembers : f.vocabulary.readMembers (list.splitOn ',') with
    | error e => rfl
    | ok members =>
      obtain ⟨s, hs⟩ := Vocabulary.exists_ofList?_of_readMembers f.isComplete hmembers
      dsimp only [Except.map]
      rw [insertAll_eq_word hs, checked_word, hs]

end Reading

section Listing

variable {n width : Nat} {f : Family}

theorem countedNumbers_eq (hn : n ≤ width) (word : BitVec width) :
    countedNumbers n word =
      ((List.range n).filter word.getLsbD).map fun i : Nat => (i : Int) + 1 := by
  rw [countedNumbers, List.range'_eq_map_range, List.filter_map, List.map_map]
  have hbits : ∀ i ∈ List.range n, (hasBit word ∘ (1 + ·)) i = word.getLsbD i := by
    intro i hi
    have hlt : i < n := List.mem_range.mp hi
    rw [Function.comp_apply, hasBit_eq (by omega), Nat.add_sub_cancel_left]
  rw [List.filter_congr hbits]
  apply List.map_congr_left
  intro i _
  rw [Function.comp_apply, Nat.cast_add, Nat.cast_one, add_comm]

theorem map_toList_eq (s : Selection n) {value : Fin n → Int} {g : Nat → Int}
    (h : ∀ i : Fin n, value i = g i) :
    s.toList.map value = ((List.range n).filter s.contains).map g := by
  rw [← List.map_coe_finRange_eq_range, List.filter_map, List.map_map]
  exact List.map_congr_left fun i _ => h i

theorem countedNumbers_setWidth (hn : n ≤ width) (s : Selection n) (parameter : Parameter) :
    countedNumbers n (s.bits.setWidth width) =
      s.toList.map (Vocabulary.counted parameter n).value := by
  have hvalue : ∀ i : Fin n, (Vocabulary.counted parameter n).value i = ((i : Nat) : Int) + 1 :=
    fun _ => rfl
  rw [countedNumbers_eq hn, map_toList_eq s (g := fun i => (i : Int) + 1) hvalue]
  congr 1
  apply List.filter_congr
  intro i hi
  have hlt : i < width := (List.mem_range.mp hi).trans_le hn
  rw [BitVec.getLsbD_setWidth, decide_eq_true hlt]
  rfl

def placeName (i : Nat) : Int :=
  if i = lastPlace then -1 else if i = secondLastPlace then -2 else i + 1

theorem numbers_word (f : Family) (s : Selection f.size) :
    f.numbers (f.word s) = s.toList.map f.vocabulary.value := by
  cases f with
  | weekdays => exact countedNumbers_setWidth (by decide) s .weekday
  | months => exact countedNumbers_setWidth (by decide) s .month
  | monthDays =>
    have hlast : hasFlag (word monthDays s) lastFlag = s.contains lastPlace :=
      (hasFlag_shiftLeft (by decide)).trans (getLsbD_word s lastPlace)
    have hsecond : hasFlag (word monthDays s) secondLastFlag = s.contains secondLastPlace :=
      (hasFlag_shiftLeft (by decide)).trans (getLsbD_word s secondLastPlace)
    have hplaces : List.range 33 = List.range 31 ++ [lastPlace, secondLastPlace] := by decide
    have hvalues : s.toList.map (vocabulary monthDays).value =
        ((List.range 33).filter s.contains).map placeName :=
      map_toList_eq s fun _ => rfl
    -- the 31 days are listed by their bits, the two places above them by their flags
    rw [hvalues, hplaces, List.filter_append, List.map_append, numbers,
      countedNumbers_eq (by decide)]
    congr 1
    · have hbits : ∀ i ∈ List.range 31, (word monthDays s).getLsbD i = s.contains i :=
        fun i _ => getLsbD_word s i
      rw [List.filter_congr hbits]
      apply List.map_congr_left
      intro i hi
      have hlt : i < lastPlace := List.mem_range.mp (List.mem_of_mem_filter hi)
      rw [placeName, if_neg hlt.ne, if_neg (hlt.trans (by decide)).ne]
    · have hlastName : placeName lastPlace = -1 := rfl
      have hsecondName : placeName secondLastPlace = -2 := rfl
      cases hone : s.contains lastPlace <;> cases htwo : s.contains secondLastPlace <;>
        simp [hlast, hsecond, hone, htwo, hlastName, hsecondName]

theorem pairwise_precedes (f : Family) (s : Selection f.size) :
    (s.toList.map f.vocabulary.value).Pairwise Precedes := by
  have hvalue : ∀ i j : Fin f.size, i < j →
      Precedes (f.vocabulary.value i) (f.vocabulary.value j) := by
    intro i j hij
    have hlt : (i : Nat) < j := hij
    cases f with
    | weekdays | months =>
      change Precedes ((i : Nat) + 1) ((j : Nat) + 1)
      unfold Precedes
      omega
    | monthDays =>
      have hi := value_monthDays_cases i
      have hj := value_monthDays_cases j
      unfold lastPlace secondLastPlace at hi hj
      change Precedes (Agenda.monthDays.value i) (Agenda.monthDays.value j)
      unfold Precedes
      omega
  rw [List.pairwise_map]
  exact ((List.pairwise_lt_finRange f.size).filter _).imp fun hij => hvalue _ _ hij

theorem nodup_of_pairwise_precedes {ks : List Int} (h : ks.Pairwise Precedes) : ks.Nodup :=
  h.imp fun hprecedes heq => by
    unfold Precedes at hprecedes
    omega

end Listing

theorem any_countedFlag? {n width k : Nat} {b : BitVec width} (hone : 1 ≤ k) (hle : k ≤ n)
    (hn : n ≤ width) : (countedFlag? width n k).any (hasFlag b) = b.getLsbD (k - 1) := by
  have hplace : ((k : Int) - 1).toNat = k - 1 := by omega
  rw [countedFlag?, if_pos (by omega), Option.any_some, hplace, hasFlag_shiftLeft (by omega)]

theorem admitsBy_word (f : Family) (s : Selection f.size) (d : Day) :
    f.admitsBy (f.word s) d = f.admits s d := by
  cases f with
  | weekdays =>
    have hone : 1 ≤ d.isoWeekday := Nat.le_add_left 1 _
    have hle : d.isoWeekday ≤ 7 := d.weekday.isLt
    rw [admitsBy, any_countedFlag? hone hle (by decide), getLsbD_word]
    rfl
  | months =>
    obtain ⟨hfirst, hlast⟩ := d.month_range
    rw [admitsBy, any_countedFlag? hfirst hlast (by decide), getLsbD_word]
    rfl
  | monthDays =>
    have hle : d.dayOfMonth ≤ 31 := d.date_isReal.2.2.2.trans (monthLength_le _ _)
    have hlt : d.dayOfMonth - 1 < 64 := by omega
    have hday : hasBit (word monthDays s) d.dayOfMonth = s.contains (d.dayOfMonth - 1) :=
      (hasBit_eq hlt).trans (getLsbD_word s _)
    have hlast : hasFlag (word monthDays s) lastFlag = s.contains lastPlace :=
      (hasFlag_shiftLeft (by decide)).trans (getLsbD_word s lastPlace)
    have hsecond : hasFlag (word monthDays s) secondLastFlag = s.contains secondLastPlace :=
      (hasFlag_shiftLeft (by decide)).trans (getLsbD_word s secondLastPlace)
    rw [admitsBy, hday, hlast, hsecond]
    rfl

theorem admits_eq (f : Family) (s : Selection f.size) (d : Day) {ks : List Int}
    (h : ∀ k, f.vocabulary.Lists s k ↔ k ∈ ks) :
    f.admits s d = .ok (decide (∃ k ∈ ks, f.Names d k)) := by
  cases f with
  | weekdays =>
    rw [admits, admitsWeekday_eq]
    refine congrArg _ (decide_eq_decide.mpr ((h _).trans ?_))
    exact ⟨fun hk => ⟨_, hk, rfl⟩, fun ⟨_, hk, hname⟩ => hname ▸ hk⟩
  | months =>
    rw [admits, admitsMonth_eq]
    refine congrArg _ (decide_eq_decide.mpr ((h _).trans ?_))
    exact ⟨fun hk => ⟨_, hk, rfl⟩, fun ⟨_, hk, hname⟩ => hname ▸ hk⟩
  | monthDays =>
    rw [admits, admitsMonthDay_eq]
    refine congrArg _ (decide_eq_decide.mpr ⟨?_, ?_⟩)
    · rintro ⟨i, hi, hname⟩
      exact ⟨_, (h _).mp ⟨i, hi, rfl⟩, hname⟩
    · rintro ⟨k, hk, hname⟩
      obtain ⟨i, hi, rfl⟩ := (h k).mpr hk
      exact ⟨i, hi, hname⟩

/-- The word holds the numbers and nothing else: it is not zero, all its bits stand for something,
it lists the different numbers in the order in which they are written, and it admits the days that
one of them names. -/
structure StandsFor (f : Family) (word : BitVec f.width) (ks : List Int) : Prop where
  ne_zero : word ≠ 0#f.width
  known : word &&& ~~~f.all = 0#f.width
  ordered : (f.numbers word).Pairwise Precedes
  nodup : (f.numbers word).Nodup
  mem_numbers_iff : ∀ k, k ∈ f.numbers word ↔ k ∈ ks
  admits_eq : ∀ d, f.admitsBy word d = .ok (decide (∃ k ∈ ks, f.Names d k))

theorem mem_map_toList_iff {f : Family} {s : Selection f.size} {k : Int} :
    k ∈ s.toList.map f.vocabulary.value ↔ f.vocabulary.Lists s k := by
  simp only [List.mem_map, Selection.mem_toList, Vocabulary.Lists]

theorem word_standsFor (f : Family) (s : Selection f.size) {ks : List Int}
    (h : ∀ k, f.vocabulary.Lists s k ↔ k ∈ ks) : f.StandsFor (f.word s) ks where
  ne_zero := f.word_ne_zero s
  known := f.word_and_not_all s
  ordered := f.numbers_word s ▸ f.pairwise_precedes s
  nodup := nodup_of_pairwise_precedes (f.numbers_word s ▸ f.pairwise_precedes s)
  mem_numbers_iff k := by rw [numbers_word, mem_map_toList_iff, h]
  admits_eq d := (f.admitsBy_word s d).trans (f.admits_eq s d h)

theorem forall₂_isInteger {n : Nat} {v : Vocabulary n} (hv : v.IsComplete)
    {elements : List (List Char)} {members : List (Fin n)}
    (h : v.readMembers elements = .ok members) :
    List.Forall₂ IsInteger elements (members.map v.value) := by
  induction elements generalizing members with
  | nil =>
    cases h
    exact .nil
  | cons e rest ih =>
    cases hmember : v.readMember e with
    | error error =>
      rw [Vocabulary.readMembers_cons_of_error hmember] at h
      cases h
    | ok i =>
      rw [Vocabulary.readMembers_cons_of_ok hmember, map_eq_ok_iff] at h
      obtain ⟨members, hmembers, rfl⟩ := h
      exact .cons ((Vocabulary.readMember_eq_ok_iff hv).mp hmember) (ih hmembers)

/-- For each kind of selection and every list: what has been read from its elements is not zero and
has no bit that stands for nothing, so it always passes the check. And when the list is read to a
selection, reading it to a word gives the word of this selection, which stands for the integers of
the list, and lists and tests as the selection does. -/
theorem set_stands_for_list (f : Family) (list : List Char) :
    (∀ word, f.readFlags 0#f.width (list.splitOn ',') = .ok word →
      word ≠ 0#f.width ∧ word &&& ~~~f.all = 0#f.width ∧ f.checked word = some word) ∧
    ∀ s, f.vocabulary.readList list = .ok s →
      ∃ (ks : List Int) (word : BitVec f.width), List.Forall₂ IsInteger (list.splitOn ',') ks ∧
        f.readWord list = .ok word ∧ f.StandsFor word ks ∧
        f.numbers word = s.toList.map f.vocabulary.value ∧
        ∀ d, f.admitsBy word d = f.admits s d := by
  constructor
  · intro word h
    obtain ⟨s, rfl⟩ := exists_word_of_readFlags h
    exact ⟨f.word_ne_zero s, f.word_and_not_all s, f.checked_word s⟩
  · intro s h
    obtain ⟨members, hmembers, hmem⟩ :=
      (Vocabulary.readList_eq_ok_iff_readMembers f.isComplete).mp h
    have hlists : ∀ k, f.vocabulary.Lists s k ↔ k ∈ members.map f.vocabulary.value := by
      intro k
      simp only [Vocabulary.Lists, List.mem_map, hmem]
    refine ⟨_, _, forall₂_isInteger f.isComplete hmembers, ?_, f.word_standsFor s hlists,
      f.numbers_word s, f.admitsBy_word s⟩
    rw [readWord_eq, h]
    rfl

/-- A plus sign, a repetition and the order of the elements do not matter to the word. -/
theorem set_stands_for_list_lastDays : ∃ (ks : List Int) (word : BitVec 64),
    List.Forall₂ IsInteger ("-2,31,-1,+1,31".toList.splitOn ',') ks ∧
    readWord monthDays "-2,31,-1,+1,31".toList = .ok word ∧ StandsFor monthDays word ks ∧
    numbers monthDays word = [1, 31, -1, -2] := by
  have h : Agenda.monthDays.readList "-2,31,-1,+1,31".toList =
      .ok ⟨.twoPow 33 0 ||| .twoPow 33 30 ||| .twoPow 33 31 ||| .twoPow 33 32, by decide⟩ := by
    decide
  obtain ⟨ks, word, hks, hword, hstands, hnumbers, -⟩ :=
    (set_stands_for_list monthDays "-2,31,-1,+1,31".toList).2 _ h
  exact ⟨ks, word, hks, hword, hstands, hnumbers.trans (by decide)⟩

end Family

end Agenda
