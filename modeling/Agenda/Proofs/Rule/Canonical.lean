import Agenda.Proofs.Rule.Grammar
import Agenda.Rule.Printer

/-!
# The canonical form is read back

A rule is written with single blanks, and a list with one canonical numeral for each member and
commas between them. This is one of the written forms of the rule, so the parser answers the same
rule again, and no two rules are written alike.
-/

namespace Agenda

open Text

theorem forall_mem_intercalate {p : Char → Prop} {separator : Char} (hp : p separator)
    {parts : List (List Char)} (h : ∀ part ∈ parts, ∀ c ∈ part, p c) :
    ∀ c ∈ [separator].intercalate parts, p c := by
  induction parts with
  | nil => simp
  | cons part rest ih =>
    rw [List.forall_mem_cons] at h
    cases rest with
    | nil => simpa using h.1
    | cons next rest =>
      intro c hc
      rw [List.intercalate_cons_cons, List.mem_append, List.mem_append,
        List.mem_singleton] at hc
      rcases hc with (hc | rfl) | hc
      · exact h.1 c hc
      · exact hp
      · exact ih h.2 c hc

namespace Vocabulary

variable {n : Nat} (v : Vocabulary n) (s : Selection n)

theorem splitOn_chars :
    (v.chars s).splitOn ',' = s.toList.map fun i => decimal (v.value i) := by
  apply List.splitOn_intercalate
  · intro numeral hnumeral
    obtain ⟨i, -, rfl⟩ := List.mem_map.mp hnumeral
    exact (isInteger_decimal _).not_mem_comma
  · obtain ⟨i, hi⟩ := s.exists_mem
    exact List.ne_nil_of_mem (List.mem_map_of_mem (Selection.mem_toList.mpr hi))

theorem isWord_chars : IsWord (v.chars s) where
  ne_nil hnil := by
    have hsplit := v.splitOn_chars s
    obtain ⟨i, hi⟩ := s.exists_mem
    have hmem : decimal (v.value i) ∈ (v.chars s).splitOn ',' := by
      rw [hsplit]
      exact List.mem_map_of_mem (Selection.mem_toList.mpr hi)
    rw [hnil, List.splitOn_nil, List.mem_singleton] at hmem
    exact (isInteger_decimal _).ne_nil hmem
  not_blank := by
    apply forall_mem_intercalate (p := fun c => isBlank c = false) rfl
    intro numeral hnumeral
    obtain ⟨i, -, rfl⟩ := List.mem_map.mp hnumeral
    exact (isInteger_decimal _).not_blank

theorem denotes_chars (hv : v.IsComplete) : v.Denotes (v.chars s) s where
  allowed e he := by
    rw [splitOn_chars] at he
    obtain ⟨i, -, rfl⟩ := List.mem_map.mp he
    exact ⟨_, isInteger_decimal _, (hv _).mpr ⟨i, rfl⟩⟩
  lists_iff k := by
    rw [HasElement, splitOn_chars]
    constructor
    · rintro ⟨i, hi, rfl⟩
      exact ⟨_, List.mem_map_of_mem (Selection.mem_toList.mpr hi), isInteger_decimal _⟩
    · rintro ⟨e, he, hk⟩
      obtain ⟨i, hi, rfl⟩ := List.mem_map.mp he
      exact ⟨i, Selection.mem_toList.mp hi, (isInteger_decimal _).unique hk⟩

end Vocabulary

theorem isWord_digits (n : Nat) : IsWord (digits n) :=
  ⟨(isInteger_digits n).ne_nil, (isInteger_digits n).not_blank⟩

namespace Rule

theorem isWord_letter (letter : RuleLetter) : IsWord letter.text.toList := by
  have hblank : (letter.text.toList.all fun c => !isBlank c) = true := by cases letter <;> rfl
  refine ⟨by cases letter <;> decide, ?_⟩
  intro c hc
  simpa using List.all_eq_true.mp hblank c hc

theorem isWritten_chars (rule : Rule) : ∃ ws, SplitsInto rule.chars ws ∧ IsWritten ws rule := by
  cases rule with
  | yearly => exact ⟨_, .last (isWord_letter .y), .yearly⟩
  | everyDays period =>
    exact ⟨_, .word (isWord_letter .d) rfl (.last (isWord_digits period.days)),
      .everyDays (isInteger_digits period.days)⟩
  | weekly days =>
    exact ⟨_, .word (isWord_letter .w) rfl (.last (weekdays.isWord_chars days)),
      .weekly (weekdays.denotes_chars days Vocabulary.weekdays_isComplete)⟩
  | monthly days selected =>
    have hdays := monthDays.denotes_chars days Vocabulary.monthDays_isComplete
    have hword := monthDays.isWord_chars days
    cases selected with
    | none => exact ⟨_, .word (isWord_letter .m) rfl (.last hword), .everyMonth hdays⟩
    | some selected =>
      have hnames := months.denotes_chars selected Vocabulary.months_isComplete
      have hparameters := SplitsInto.word hword (c := ' ') rfl
        (.last (months.isWord_chars selected))
      have hwords := SplitsInto.word (isWord_letter .m) (c := ' ') rfl hparameters
      exact ⟨_, hwords, .inMonths hdays hnames⟩

theorem parse_text (rule : Rule) : parse rule.text = .ok rule := by
  rw [parse_eq_ok_iff, text, String.toList_ofList]
  exact rule.isWritten_chars

theorem text_injective : Function.Injective text := by
  intro rule rule' h
  have hparse := rule.parse_text
  rw [h, rule'.parse_text] at hparse
  exact (Except.ok.inj hparse).symm

/-- Reading undoes writing for every rule. So no two rules are written alike, the canonical form of
a canonical form is that form, and two accepted texts have the same canonical form just when they
are read as the same rule. -/
theorem parse_text_canonical :
    (∀ rule, parse (text rule) = .ok rule) ∧ Function.Injective text ∧
    (∀ rule, (parse (text rule)).map text = .ok (text rule)) ∧
    ∀ (expr expr' : String) (rule rule' : Rule), parse expr = .ok rule → parse expr' = .ok rule' →
      (rule.text = rule'.text ↔ parse expr = parse expr') := by
  refine ⟨parse_text, text_injective, ?_, ?_⟩
  · intro rule
    exact map_eq_ok_iff.mpr ⟨rule, rule.parse_text, rfl⟩
  · intro expr expr' rule rule' h h'
    rw [h, h', Except.ok.injEq, text_injective.eq_iff]

/-- Two spellings of the 31st and the last day but one of February have one canonical form. -/
theorem parse_text_canonical_february : ∃ rule,
    parse "m -2,31 02" = .ok rule ∧ parse " m 31,-002,31 +2" = .ok rule ∧
    rule.text = "m 31,-2 2" ∧ parse "m 31,-2 2" = .ok rule ∧
    parse "m -2,31 02" = parse " m 31,-002,31 +2" := by
  have h : parse "m -2,31 02" =
      .ok (monthly ⟨.twoPow 33 30 ||| .twoPow 33 32, by decide⟩
        (some ⟨.twoPow 12 1, by decide⟩)) := by
    decide
  have h' : parse " m 31,-002,31 +2" =
      .ok (monthly ⟨.twoPow 33 30 ||| .twoPow 33 32, by decide⟩
        (some ⟨.twoPow 12 1, by decide⟩)) := by
    decide
  have htext : (monthly ⟨.twoPow 33 30 ||| .twoPow 33 32, by decide⟩
      (some ⟨.twoPow 12 1, by decide⟩)).text = "m 31,-2 2" := by
    decide
  have hagain := parse_text_canonical.1 (monthly ⟨.twoPow 33 30 ||| .twoPow 33 32, by decide⟩
    (some ⟨.twoPow 12 1, by decide⟩))
  rw [htext] at hagain
  exact ⟨_, h, h', htext, hagain, (parse_text_canonical.2.2.2 _ _ _ _ h h').mp rfl⟩

end Rule

end Agenda
