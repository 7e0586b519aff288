import Agenda.NextDate
import Agenda.Proofs.Calendar.Text
import Agenda.Proofs.Rule.Canonical
import Agenda.Proofs.Rule.Rejection

/-!
# Which error is found first

The next date of a written rule is decided in one order. A blank rule is told first, whatever the
anchor is; then an anchor that is no day; then a rule that is not read; then a search without an
answer. The result depends on the texts only through the day and the rule that they are read as, so
that it stays the same when both are written in their canonical form.
-/

namespace Agenda

open Text

variable {reference day : Day} {anchor expr : String} {parsed : Rule}

theorem Rule.parse_trim (expr : String) : parse (trim expr) = parse expr := by
  rw [parse, parse, toList_trim, words_trimmed]

theorem Rule.not_allBlank_of_parse (h : parse expr = .ok parsed) : ¬ AllBlank expr.toList := by
  intro hblank
  rw [parse_eq_emptyRule_iff.mpr hblank] at h
  cases h

theorem Rule.trim_ne_empty_of_parse (h : parse expr = .ok parsed) : trim expr ≠ "" := by
  intro hempty
  exact not_allBlank_of_parse h (trim_eq_empty_iff.mp hempty)

namespace NextDate

variable {r : Except NextDateError NextDate}

/-- What the texts come to: each result with all that leads to it, in the order in which the errors
are found. -/
inductive Verdict (reference : Day) (anchor expr : String) :
    Except NextDateError NextDate → Prop
  | emptyRule (hblank : AllBlank expr.toList) : Verdict reference anchor expr (.error .emptyRule)
  | malformedAnchor (hrule : ¬ AllBlank expr.toList)
      (hanchor : ∀ x : Date, ¬ x.IsSpelledBy (trim anchor).toList) :
      Verdict reference anchor expr (.error (.malformedAnchor anchor))
  | rule {day : Day} {e : RuleError} (hrule : ¬ AllBlank expr.toList)
      (hday : day.date.IsSpelledBy (trim anchor).toList) (he : Rule.parse expr = .error e) :
      Verdict reference anchor expr (.error (.rule e))
  | search {day : Day} {parsed : Rule} {e : SearchError}
      (hday : day.date.IsSpelledBy (trim anchor).toList) (hrule : Rule.parse expr = .ok parsed)
      (he : parsed.nextOccurrence reference day = .error e) :
      Verdict reference anchor expr (.error (.search e))
  | found {day : Day} {parsed : Rule} {o : Occurrence}
      (hday : day.date.IsSpelledBy (trim anchor).toList) (hrule : Rule.parse expr = .ok parsed)
      (ho : parsed.nextOccurrence reference day = .ok o) :
      Verdict reference anchor expr (.ok ⟨parsed, day, reference, o⟩)

theorem read_eq_emptyRule (h : AllBlank expr.toList) : read anchor expr = .error .emptyRule := by
  rw [read, if_pos (trim_eq_empty_iff.mpr h)]

theorem read_of_not_allBlank (h : ¬ AllBlank expr.toList) :
    read anchor expr =
      match Day.ofText? (trim anchor) with
      | none => .error (.malformedAnchor anchor)
      | some day => ((Rule.parse expr).mapError .rule).map fun parsed => (day, parsed) := by
  rw [read, if_neg (mt trim_eq_empty_iff.mp h), Rule.parse_trim]
  cases Day.ofText? (trim anchor) with
  | none => rfl
  | some day => cases Rule.parse expr <;> rfl

theorem read_eq_ok (hday : day.date.IsSpelledBy (trim anchor).toList)
    (hrule : Rule.parse expr = .ok parsed) : read anchor expr = .ok (day, parsed) := by
  rw [read_of_not_allBlank (Rule.not_allBlank_of_parse hrule),
    Day.ofText?_eq_some_iff_isSpelledBy.mpr hday, hrule]
  rfl

theorem Verdict.evaluate_eq (h : Verdict reference anchor expr r) :
    evaluate reference anchor expr = r := by
  cases h with
  | emptyRule hblank => simp only [evaluate, read_eq_emptyRule hblank]
  | malformedAnchor hrule hanchor =>
    simp only [evaluate, read_of_not_allBlank hrule, Day.ofText?_eq_none_iff.mpr hanchor]
  | rule hrule hday he =>
    have hread := Day.ofText?_eq_some_iff_isSpelledBy.mpr hday
    simp only [evaluate, read_of_not_allBlank hrule, hread, he]
    rfl
  | search hday hrule he => simp only [evaluate, read_eq_ok hday hrule, he]
  | found hday hrule ho => simp only [evaluate, read_eq_ok hday hrule, ho]

theorem verdict_evaluate (reference : Day) (anchor expr : String) :
    Verdict reference anchor expr (evaluate reference anchor expr) := by
  by_cases hblank : AllBlank expr.toList
  · have h : Verdict reference anchor expr (.error .emptyRule) := .emptyRule hblank
    rwa [h.evaluate_eq]
  cases hanchor : Day.ofText? (trim anchor) with
  | none =>
    have h : Verdict reference anchor expr (.error (.malformedAnchor anchor)) :=
      .malformedAnchor hblank (Day.ofText?_eq_none_iff.mp hanchor)
    rwa [h.evaluate_eq]
  | some day =>
    have hday := Day.ofText?_eq_some_iff_isSpelledBy.mp hanchor
    cases hrule : Rule.parse expr with
    | error e =>
      have h : Verdict reference anchor expr (.error (.rule e)) := .rule hblank hday hrule
      rwa [h.evaluate_eq]
    | ok parsed =>
      cases ho : parsed.nextOccurrence reference day with
      | error e =>
        have h := Verdict.search hday hrule ho
        rwa [h.evaluate_eq]
      | ok o =>
        have h := Verdict.found hday hrule ho
        rwa [h.evaluate_eq]

/-- The result is the one that the texts come to. -/
theorem evaluate_eq_iff : evaluate reference anchor expr = r ↔ Verdict reference anchor expr r := by
  constructor
  · intro h
    rw [← h]
    exact verdict_evaluate reference anchor expr
  · exact Verdict.evaluate_eq

theorem evaluate_eq_emptyRule_iff :
    evaluate reference anchor expr = .error .emptyRule ↔ AllBlank expr.toList := by
  rw [evaluate_eq_iff]
  constructor
  · intro h
    cases h with
    | emptyRule hblank => exact hblank
  · exact .emptyRule

theorem evaluate_eq_malformedAnchor_iff {raw : String} :
    evaluate reference anchor expr = .error (.malformedAnchor raw) ↔
      ¬ AllBlank expr.toList ∧ (∀ x : Date, ¬ x.IsSpelledBy (trim anchor).toList) ∧
        raw = anchor := by
  rw [evaluate_eq_iff]
  constructor
  · intro h
    cases h with
    | malformedAnchor hrule hanchor => exact ⟨hrule, hanchor, rfl⟩
  · rintro ⟨hrule, hanchor, rfl⟩
    exact .malformedAnchor hrule hanchor

theorem evaluate_eq_rule_iff {e : RuleError} :
    evaluate reference anchor expr = .error (.rule e) ↔
      ¬ AllBlank expr.toList ∧ (∃ x : Date, x.IsSpelledBy (trim anchor).toList) ∧
        Rule.parse expr = .error e := by
  rw [evaluate_eq_iff]
  constructor
  · intro h
    cases h with
    | rule hrule hday he => exact ⟨hrule, ⟨_, hday⟩, he⟩
  · rintro ⟨hrule, ⟨x, hx⟩, he⟩
    obtain ⟨day, rfl⟩ := hx.exists_date_eq
    exact .rule hrule hx he

theorem evaluate_ne_rule_emptyRule :
    evaluate reference anchor expr ≠ .error (.rule .emptyRule) := by
  intro h
  obtain ⟨hrule, -, he⟩ := evaluate_eq_rule_iff.mp h
  exact hrule (Rule.parse_eq_emptyRule_iff.mp he)

theorem evaluate_eq_search_iff {e : SearchError} :
    evaluate reference anchor expr = .error (.search e) ↔
      ∃ (day : Day) (parsed : Rule), day.date.IsSpelledBy (trim anchor).toList ∧
        Rule.parse expr = .ok parsed ∧ parsed.nextOccurrence reference day = .error e := by
  rw [evaluate_eq_iff]
  constructor
  · intro h
    cases h with
    | search hday hrule he => exact ⟨_, _, hday, hrule, he⟩
  · rintro ⟨day, parsed, hday, hrule, he⟩
    exact .search hday hrule he

theorem evaluate_eq_ok_iff {n : NextDate} :
    evaluate reference anchor expr = .ok n ↔
      n.reference = reference ∧ n.anchor.date.IsSpelledBy (trim anchor).toList ∧
        Rule.parse expr = .ok n.rule ∧
        n.rule.nextOccurrence reference n.anchor = .ok n.occurrence := by
  rw [evaluate_eq_iff]
  constructor
  · intro h
    cases h with
    | found hday hrule ho => exact ⟨rfl, hday, hrule, ho⟩
  · rintro ⟨rfl, hday, hrule, ho⟩
    exact .found hday hrule ho

/-- Texts that are read as the same day and the same rule have the same result. -/
theorem evaluate_congr {anchor' expr' : String} (hday : day.date.IsSpelledBy (trim anchor).toList)
    (hday' : day.date.IsSpelledBy (trim anchor').toList) (hrule : Rule.parse expr = .ok parsed)
    (hrule' : Rule.parse expr' = .ok parsed) :
    evaluate reference anchor expr = evaluate reference anchor' expr' := by
  simp only [evaluate, read_eq_ok hday hrule, read_eq_ok hday' hrule']

theorem evaluate_canonical {x : Date} (hx : x.IsSpelledBy (trim anchor).toList)
    (hrule : Rule.parse expr = .ok parsed) :
    evaluate reference (trim anchor) parsed.text = evaluate reference anchor expr := by
  obtain ⟨day, rfl⟩ := hx.exists_date_eq
  have htrim : day.date.IsSpelledBy (trim (trim anchor)).toList := by rwa [trim_trim]
  exact evaluate_congr htrim hx parsed.parse_text hrule

theorem evaluate_text {anchor : Day} (hrule : Rule.parse expr = .ok parsed)
    (hanchor : 0 ≤ anchor.year ∧ anchor.year ≤ 9999) :
    evaluate reference anchor.text expr =
      match parsed.nextOccurrence reference anchor with
      | .error e => .error (.search e)
      | .ok o => .ok ⟨parsed, anchor, reference, o⟩ := by
  have hday : anchor.date.IsSpelledBy (trim anchor.text).toList := by
    rw [Day.trim_text]
    exact Day.ofText?_eq_some_iff_isSpelledBy.mp (Day.ofText?_text hanchor)
  cases ho : parsed.nextOccurrence reference anchor with
  | error e => simp only [evaluate, read_eq_ok hday hrule, ho]
  | ok o => simp only [evaluate, read_eq_ok hday hrule, ho]

/-- The next date from a written day is the answer of the search, in its written form. -/
theorem nextDate_text {anchor : Day} (hrule : Rule.parse expr = .ok parsed)
    (hanchor : 0 ≤ anchor.year ∧ anchor.year ≤ 9999) :
    nextDate reference anchor.text expr =
      match parsed.nextOccurrence reference anchor with
      | .error e => .error (.search e)
      | .ok o => .ok o.day.text := by
  rw [nextDate, evaluate_text hrule hanchor]
  cases parsed.nextOccurrence reference anchor <;> rfl

theorem isSpelledBy_trim {x : Date} (hx : x.IsSpelledBy anchor.toList) :
    x.IsSpelledBy (trim anchor).toList := by
  obtain ⟨day, rfl⟩ := hx.exists_date_eq
  obtain ⟨rfl, -⟩ := Day.ofText?_eq_some_iff.mp (Day.ofText?_eq_some_iff_isSpelledBy.mpr hx)
  rwa [Day.trim_text]

theorem nextDate_of_isSpelledBy (hday : day.date.IsSpelledBy (trim anchor).toList)
    (hrule : Rule.parse expr = .ok parsed) :
    nextDate reference anchor expr =
      match parsed.nextOccurrence reference day with
      | .error e => .error (.search e)
      | .ok o => .ok o.day.text := by
  rw [nextDate]
  simp only [evaluate, read_eq_ok hday hrule]
  cases parsed.nextOccurrence reference day <;> rfl

theorem exists_occurrence_of_nextDate {next : String}
    (hday : day.date.IsSpelledBy (trim anchor).toList)
    (h : nextDate reference anchor expr = .ok next) :
    ∃ (parsed : Rule) (o : Occurrence), Rule.parse expr = .ok parsed ∧
      parsed.nextOccurrence reference day = .ok o := by
  obtain ⟨n, hn, -⟩ := map_eq_ok_iff.mp h
  obtain ⟨-, -, hrule, -⟩ := evaluate_eq_ok_iff.mp hn
  rw [nextDate_of_isSpelledBy hday hrule] at h
  cases ho : n.rule.nextOccurrence reference day with
  | error e =>
    rw [ho] at h
    cases h
  | ok o => exact ⟨n.rule, o, hrule, ho⟩

theorem ne_of_nextDate_eq_error {x : Date} {e : NextDateError}
    (hx : x.IsSpelledBy (trim anchor).toList) (hrule : trim expr ≠ "")
    (h : nextDate reference anchor (trim expr) = .error e) :
    e ≠ .emptyRule ∧ ∀ raw, e ≠ .malformedAnchor raw := by
  have hevaluate := map_eq_error_iff.mp h
  constructor
  · rintro rfl
    have hblank := trim_eq_empty_iff.mpr (evaluate_eq_emptyRule_iff.mp hevaluate)
    rw [trim_trim] at hblank
    exact hrule hblank
  · rintro raw rfl
    exact (evaluate_eq_malformedAnchor_iff.mp hevaluate).2.1 x hx

/-- The results in their order, each with what it says: a blank rule; else an anchor that spells no
real date once it is trimmed, told as it was given; else the error of the rule, which is never that
of the empty rule; else the error of the search, or the date it finds. The trimmed anchor and the
canonical form of the rule have the same result. -/
theorem evaluate_first_error (reference : Day) (anchor expr : String) :
    (evaluate reference anchor expr = .error .emptyRule ↔ AllBlank expr.toList) ∧
    (∀ raw, evaluate reference anchor expr = .error (.malformedAnchor raw) ↔
      ¬ AllBlank expr.toList ∧ (∀ x : Date, ¬ x.IsSpelledBy (trim anchor).toList) ∧
        raw = anchor) ∧
    (∀ e, evaluate reference anchor expr = .error (.rule e) ↔
      ¬ AllBlank expr.toList ∧ (∃ x : Date, x.IsSpelledBy (trim anchor).toList) ∧
        Rule.parse expr = .error e) ∧
    evaluate reference anchor expr ≠ .error (.rule .emptyRule) ∧
    (∀ e, evaluate reference anchor expr = .error (.search e) ↔
      ∃ (day : Day) (parsed : Rule), day.date.IsSpelledBy (trim anchor).toList ∧
        Rule.parse expr = .ok parsed ∧ parsed.nextOccurrence reference day = .error e) ∧
    (∀ n, evaluate reference anchor expr = .ok n ↔
      n.reference = reference ∧ n.anchor.date.IsSpelledBy (trim anchor).toList ∧
        Rule.parse expr = .ok n.rule ∧
        n.rule.nextOccurrence reference n.anchor = .ok n.occurrence) ∧
    (∀ t, nextDate reference anchor expr = .ok t ↔
      ∃ n, evaluate reference anchor expr = .ok n ∧ n.occurrence.day.text = t) ∧
    ∀ (x : Date) (parsed : Rule), x.IsSpelledBy (trim anchor).toList →
      Rule.parse expr = .ok parsed →
      evaluate reference (trim anchor) parsed.text = evaluate reference anchor expr := by
  refine ⟨evaluate_eq_emptyRule_iff, fun _ => evaluate_eq_malformedAnchor_iff,
    fun _ => evaluate_eq_rule_iff, evaluate_ne_rule_emptyRule, fun _ => evaluate_eq_search_iff,
    fun _ => evaluate_eq_ok_iff, ?date, ?canonical⟩
  case date =>
    intro t
    rw [nextDate, map_eq_ok_iff]
    rfl
  case canonical =>
    intro x parsed hx hrule
    exact evaluate_canonical hx hrule

/-- A rule in another order, among blanks, has the next date of its canonical form. -/
theorem evaluate_first_error_weekdays :
    ∃ reference : Day, reference.date = ⟨2024, 1, 26⟩ ∧
      Date.IsSpelledBy ⟨2024, 1, 25⟩ (trim " 20240125\n").toList ∧
      Rule.parse "  w 3,1,2,1 " = .ok (.weekly ⟨0b111, by decide⟩) ∧
      evaluate reference "20240125" "w 1,2,3" =
        evaluate reference " 20240125\n" "  w 3,1,2,1 " ∧
      nextDate reference " 20240125\n" "  w 3,1,2,1 " = .ok "20240129" := by
  have hx : Date.IsSpelledBy ⟨2024, 1, 25⟩ (trim " 20240125\n").toList :=
    ⟨by decide, by decide, by decide⟩
  have hrule : Rule.parse "  w 3,1,2,1 " = .ok (.weekly ⟨0b111, by decide⟩) := by decide
  have hanchor : trim " 20240125\n" = "20240125" := by decide
  have htext : (Rule.weekly ⟨0b111, by decide⟩).text = "w 1,2,3" := by decide
  have hcanonical := (evaluate_first_error ⟨738911, by decide, by decide⟩ " 20240125\n"
    "  w 3,1,2,1 ").2.2.2.2.2.2.2 _ _ hx hrule
  rw [hanchor, htext] at hcanonical
  exact ⟨_, by decide, hx, hrule, hcanonical, by decide +kernel⟩

end NextDate

end Agenda
