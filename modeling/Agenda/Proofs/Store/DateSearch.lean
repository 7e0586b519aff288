import Agenda.Proofs.Store.Listing

/-!
# Searching the tasks of a day

A search text is read in one of three ways. A blank one asks for all tasks. Two digits, a dot, two
digits, a dot and four digits that name a real date ask for the tasks of this day, whose written
form has the same digits with the year first. Every other text asks for the tasks that contain it
once it is trimmed. So the form with dots of a day in the years 0 to 9999 finds the tasks that are
stored under this day and no others.
-/

namespace Agenda

open Text

/-- The text is so many ASCII digits and denotes the number. -/
structure IsField (width : Nat) (ds : List Char) (n : Nat) : Prop where
  length_eq : ds.length = width
  isDigits : IsDigits ds n

/-- The texts are two, two and four digits, and name the day, the month and the year of a real
date. -/
structure Date.HasFields (x : Date) (day month year : List Char) : Prop where
  isReal : x.IsReal
  isField_day : IsField 2 day x.day
  isField_month : IsField 2 month x.month
  isField_year : IsField 4 year x.year.natAbs
  year_nonneg : 0 ≤ x.year

def dotted (day month year : List Char) : List Char := day ++ '.' :: (month ++ '.' :: year)

variable {x : Date} {d : Day} {day month year s : List Char} {width n : Nat}

theorem isField_fieldValue (hwidth : 0 < width) (hlength : s.length = width)
    (hdigit : ∀ c ∈ s, c.isDigit = true) : IsField width s (fieldValue s) :=
  ⟨hlength, List.length_pos_iff.mp (hlength ▸ hwidth), hdigit, rfl⟩

theorem isField_padded (hwidth : 0 < width) (h : n < 10 ^ width) :
    IsField width (padded width n) n :=
  ⟨length_padded hwidth h, isDigits_padded width n⟩

theorem IsField.eq_padded (h : IsField width s n) : s = padded width n := by
  rw [← h.length_eq]
  exact h.isDigits.eq_padded

theorem IsField.lt (h : IsField width s n) : n < 10 ^ width := by
  rw [← h.length_eq, ← h.isDigits.value]
  exact ofDigitChars_lt h.isDigits.isDigit

theorem Date.HasFields.isSpelledBy (h : x.HasFields day month year) :
    x.IsSpelledBy (year ++ month ++ day) where
  isReal := h.isReal
  year_range := by
    have hlt := h.isField_year.lt
    have hnonneg := h.year_nonneg
    omega
  eq_digits := by
    rw [← h.isField_year.eq_padded, ← h.isField_month.eq_padded, ← h.isField_day.eq_padded]

namespace Day

theorem ofChars?_eq_some_iff_hasFields (hday : day.length = 2) (hmonth : month.length = 2)
    (hyear : year.length = 4) :
    ofChars? (year ++ month ++ day) = some d ↔ d.date.HasFields day month year := by
  constructor
  · intro h
    obtain ⟨-, -, -, -, -, -, -, hdigit, -⟩ := exists_fields_of_ofChars? h
    rw [ofChars?_append hyear hmonth hday hdigit, ofDate?_eq_some_iff] at h
    simp only [List.forall_mem_append] at hdigit
    have hreal := d.date_isReal
    rw [h] at hreal ⊢
    exact ⟨hreal, isField_fieldValue (by decide) hday hdigit.2,
      isField_fieldValue (by decide) hmonth hdigit.1.2,
      isField_fieldValue (by decide) hyear hdigit.1.1, Int.natCast_nonneg _⟩
  · intro h
    have hspelled := h.isSpelledBy
    rwa [← String.toList_ofList (l := year ++ month ++ day), ← ofText?_eq_some_iff_isSpelledBy,
      ofText?, String.toList_ofList] at hspelled

theorem toList_text_of_hasFields (h : d.date.HasFields day month year) :
    d.text.toList = year ++ month ++ day := by
  have hread := (ofChars?_eq_some_iff_hasFields h.isField_day.length_eq h.isField_month.length_eq
    h.isField_year.length_eq).mpr h
  rw [toList_text, (ofChars?_eq_some_iff.mp hread).1]

/-- The day's form with dots, which has ten characters in the years 0 to 9999. -/
def dottedText (d : Day) : String :=
  String.ofList (dotted (padded 2 d.dayOfMonth) (padded 2 d.month) (padded 4 d.year.natAbs))

theorem hasFields_padded (h : 0 ≤ d.year ∧ d.year ≤ 9999) :
    d.date.HasFields (padded 2 d.dayOfMonth) (padded 2 d.month) (padded 4 d.year.natAbs) where
  isReal := d.date_isReal
  isField_day := isField_padded (by decide) d.dayOfMonth_lt
  isField_month := isField_padded (by decide) d.month_lt
  isField_year := isField_padded (by decide) (by omega)
  year_nonneg := h.1

@[simp] theorem trim_dottedText (d : Day) : trim d.dottedText = d.dottedText := by
  have hpadded : ∀ {width n}, ∀ c ∈ padded width n, isBlank c = false :=
    fun c hc => isBlank_of_isDigit ((isDigits_padded _ _).isDigit c hc)
  rw [trim, dottedText, String.toList_ofList, trimmed_eq_self]
  rw [dotted, List.forall_mem_append, List.forall_mem_cons, List.forall_mem_append,
    List.forall_mem_cons]
  exact ⟨hpadded, rfl, hpadded, rfl, hpadded⟩

end Day

namespace Query

theorem dottedDay?_dotted (hday : day.length = 2) (hmonth : month.length = 2)
    (hyear : year.length = 4) :
    dottedDay? (dotted day month year) = Day.ofChars? (year ++ month ++ day) := by
  match day, month, year, hday, hmonth, hyear with
  | [_, _], [_, _], [_, _, _, _], _, _, _ => rfl

theorem exists_dotted_of_dottedDay? (h : dottedDay? s = some d) : ∃ day month year : List Char,
    day.length = 2 ∧ month.length = 2 ∧ year.length = 4 ∧ s = dotted day month year := by
  unfold dottedDay? at h
  split at h
  · rename_i d₁ d₂ m₁ m₂ y₁ y₂ y₃ y₄
    exact ⟨[d₁, d₂], [m₁, m₂], [y₁, y₂, y₃, y₄], rfl, rfl, rfl, rfl⟩
  · cases h

theorem dottedDay?_eq_some_iff :
    dottedDay? s = some d ↔
      ∃ day month year, d.date.HasFields day month year ∧ s = dotted day month year := by
  constructor
  · intro h
    obtain ⟨day, month, year, hday, hmonth, hyear, rfl⟩ := exists_dotted_of_dottedDay? h
    rw [dottedDay?_dotted hday hmonth hyear,
      Day.ofChars?_eq_some_iff_hasFields hday hmonth hyear] at h
    exact ⟨day, month, year, h, rfl⟩
  · rintro ⟨day, month, year, h, rfl⟩
    have hday := h.isField_day.length_eq
    have hmonth := h.isField_month.length_eq
    have hyear := h.isField_year.length_eq
    rw [dottedDay?_dotted hday hmonth hyear]
    exact (Day.ofChars?_eq_some_iff_hasFields hday hmonth hyear).mpr h

theorem dottedDay?_eq_none_iff :
    dottedDay? s = none ↔
      ∀ (x : Date) (day month year : List Char), x.HasFields day month year →
        s ≠ dotted day month year := by
  rw [Option.eq_none_iff_forall_ne_some]
  constructor
  · intro h x day month year hx hs
    obtain ⟨d, rfl⟩ := hx.isSpelledBy.exists_date_eq
    exact h d (dottedDay?_eq_some_iff.mpr ⟨day, month, year, hx, hs⟩)
  · intro h d hd
    obtain ⟨day, month, year, hx, hs⟩ := dottedDay?_eq_some_iff.mp hd
    exact h _ day month year hx hs

variable {raw text : String}

theorem parse_of_not_allBlank (h : ¬ AllBlank raw.toList) :
    parse raw =
      match dottedDay? (trim raw).toList with
      | some day => .onDate day.text
      | none => .containing (trim raw) :=
  if_neg (mt trim_eq_empty_iff.mp h)

theorem parse_eq_all_iff : parse raw = .all ↔ AllBlank raw.toList := by
  constructor
  · intro h
    by_contra hblank
    rw [parse_of_not_allBlank hblank] at h
    split at h <;> cases h
  · intro h
    exact if_pos (trim_eq_empty_iff.mpr h)

theorem not_allBlank_of_dottedDay? (h : dottedDay? (trim raw).toList = some d) :
    ¬ AllBlank raw.toList := by
  intro hblank
  rw [trim_eq_empty_iff.mpr hblank] at h
  cases h

theorem parse_eq_onDate_iff :
    parse raw = .onDate text ↔
      ∃ d, dottedDay? (trim raw).toList = some d ∧ text = d.text := by
  constructor
  · intro h
    by_cases hblank : AllBlank raw.toList
    · rw [parse_eq_all_iff.mpr hblank] at h
      cases h
    · rw [parse_of_not_allBlank hblank] at h
      split at h
      · rename_i d hd
        cases h
        exact ⟨d, hd, rfl⟩
      · cases h
  · rintro ⟨d, hd, rfl⟩
    rw [parse_of_not_allBlank (not_allBlank_of_dottedDay? hd), hd]

theorem parse_eq_containing_iff :
    parse raw = .containing text ↔
      ¬ AllBlank raw.toList ∧ dottedDay? (trim raw).toList = none ∧ text = trim raw := by
  constructor
  · intro h
    have hblank : ¬ AllBlank raw.toList := by
      intro hblank
      rw [parse_eq_all_iff.mpr hblank] at h
      cases h
    rw [parse_of_not_allBlank hblank] at h
    split at h
    · cases h
    · rename_i hnone
      cases h
      exact ⟨hblank, hnone, rfl⟩
  · rintro ⟨hblank, hnone, rfl⟩
    rw [parse_of_not_allBlank hblank, hnone]

theorem parse_eq_onDate_iff_hasFields :
    parse raw = .onDate text ↔
      ∃ (x : Date) (day month year : List Char), x.HasFields day month year ∧
        (trim raw).toList = dotted day month year ∧ text.toList = year ++ month ++ day := by
  rw [parse_eq_onDate_iff]
  constructor
  · rintro ⟨d, hd, rfl⟩
    obtain ⟨day, month, year, hx, hs⟩ := dottedDay?_eq_some_iff.mp hd
    exact ⟨d.date, day, month, year, hx, hs, Day.toList_text_of_hasFields hx⟩
  · rintro ⟨x, day, month, year, hx, hs, htext⟩
    obtain ⟨d, rfl⟩ := hx.isSpelledBy.exists_date_eq
    refine ⟨d, dottedDay?_eq_some_iff.mpr ⟨day, month, year, hx, hs⟩, ?_⟩
    rw [← String.toList_inj, htext, Day.toList_text_of_hasFields hx]

theorem parse_dottedText (h : 0 ≤ d.year ∧ d.year ≤ 9999) :
    parse d.dottedText = .onDate d.text := by
  rw [parse_eq_onDate_iff]
  refine ⟨d, dottedDay?_eq_some_iff.mpr ⟨_, _, _, Day.hasFields_padded h, ?_⟩, rfl⟩
  rw [Day.trim_dottedText, Day.dottedText, String.toList_ofList]

end Query

theorem Store.exists_list_onDate (h : 0 ≤ d.year ∧ d.year ≤ 9999) (s : Store) :
    ∃ rows : List Row, rows.Perm (s.rows.filter fun row => Day.ofText? row.date = some d) ∧
      ∀ limit, s.list (.onDate d.text) limit =
        .ok ((rows.take (rowLimit limit)).map Row.toTask) := by
  have hmatch : isMatch (.onDate d.text) =
      fun row : Row => decide (Day.ofText? row.date = some d) := by
    funext row
    rw [isMatch, Bool.eq_iff_iff, beq_iff_eq, decide_eq_true_iff, Day.ofText?_eq_some_iff]
    exact ⟨fun hdate => ⟨hdate, h⟩, And.left⟩
  refine ⟨_, List.mergeSort_perm _ Row.before, fun limit => ?_⟩
  rw [list_of_fits (by simp [Fits]), hmatch]

namespace Query

/-- A blank text asks for all tasks. A text that is made of a real date's digits with dots between
them once it is trimmed asks for the tasks under the same digits with the year first, which are read
as the day of this date. Any other text asks for the tasks that contain it, trimmed. So the form
with dots of a day in the years 0 to 9999 lists the tasks whose date is read as this day, each once
and up to the limit. -/
theorem parse_reads_exactly :
    (∀ raw : String,
      (parse raw = .all ↔ AllBlank raw.toList) ∧
      (∀ text, parse raw = .onDate text ↔
        ∃ (x : Date) (day month year : List Char), x.HasFields day month year ∧
          (trim raw).toList = dotted day month year ∧ text.toList = year ++ month ++ day) ∧
      (∀ text, parse raw = .onDate text →
        ∃ (d : Day) (day month year : List Char), d.date.HasFields day month year ∧
          (trim raw).toList = dotted day month year ∧ Day.ofText? text = some d) ∧
      ∀ text, parse raw = .containing text ↔ ¬ AllBlank raw.toList ∧
        (∀ (x : Date) (day month year : List Char), x.HasFields day month year →
          (trim raw).toList ≠ dotted day month year) ∧
        text = trim raw) ∧
    ∀ (d : Day) (s : Store), 0 ≤ d.year ∧ d.year ≤ 9999 →
      ∃ rows : List Row, rows.Perm (s.rows.filter fun row => Day.ofText? row.date = some d) ∧
        ∀ limit, s.list (parse d.dottedText) limit =
          .ok ((rows.take (Store.rowLimit limit)).map Row.toTask) := by
  refine ⟨fun raw => ⟨parse_eq_all_iff, fun text => parse_eq_onDate_iff_hasFields, ?_, ?_⟩, ?_⟩
  · intro text h
    obtain ⟨d, hd, rfl⟩ := parse_eq_onDate_iff.mp h
    obtain ⟨day, month, year, hx, hs⟩ := dottedDay?_eq_some_iff.mp hd
    exact ⟨d, day, month, year, hx, hs, Day.ofText?_text hx.isSpelledBy.year_range⟩
  · intro text
    rw [parse_eq_containing_iff, dottedDay?_eq_none_iff]
  · intro d s h
    rw [parse_dottedText h]
    exact s.exists_list_onDate h

/-- The leap day of 2024 is searched for with blanks around it, and of three tasks the two under it
are found. -/
theorem parse_reads_exactly_leapDay : ∃ (d : Day) (s : Store) (rows : List Row),
    d.date = ⟨2024, 2, 29⟩ ∧ (0 ≤ d.year ∧ d.year ≤ 9999) ∧ d.dottedText = "29.02.2024" ∧
    parse "\t29.02.2024 " = .onDate "20240229" ∧ Day.ofText? "20240229" = some d ∧
    s.rows.map Row.date = ["20240301", "20240229", "20240229"] ∧
    (rows.map Row.id).Perm [2, 3] ∧
    ∀ limit, s.list (parse "29.02.2024") limit =
      .ok ((rows.take (Store.rowLimit limit)).map Row.toTask) := by
  let d : Day := ⟨738945, by decide, by decide⟩
  let rent : Row := ⟨1, "20240301", "rent", "", ""⟩
  let walk : Row := ⟨2, "20240229", "walk", "", ""⟩
  let swim : Row := ⟨3, "20240229", "swim", "", ""⟩
  have hyear : 0 ≤ d.year ∧ d.year ≤ 9999 := by decide
  have hdotted : d.dottedText = "29.02.2024" := by decide
  obtain ⟨hkinds, hsearch⟩ := parse_reads_exactly
  have hparse : parse "\t29.02.2024 " = .onDate "20240229" :=
    ((hkinds "\t29.02.2024 ").2.1 "20240229").mpr
      ⟨d.date, _, _, _, Day.hasFields_padded hyear, by decide, by decide⟩
  obtain ⟨rows, hperm, hlist⟩ := hsearch d ⟨[rent, walk, swim], 3⟩ hyear
  have hfilter : [rent, walk, swim].filter (fun row => Day.ofText? row.date = some d) =
      [walk, swim] := by
    decide +kernel
  rw [hfilter] at hperm
  rw [hdotted] at hlist
  exact ⟨d, _, rows, by decide, hyear, hdotted, hparse, by decide +kernel, rfl,
    hperm.map Row.id, hlist⟩

/-- A day that does not exist, a digit that is not an ASCII one and a stray character behind the
date make a text of it. -/
example : parse "30.02.2024" = .containing "30.02.2024" ∧
    parse "٢9.02.2024" = .containing "٢9.02.2024" ∧
    parse " 29.02.2024." = .containing "29.02.2024." := by
  decide

end Query
end Agenda
