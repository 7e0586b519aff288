import Agenda.Text.Blank
import Mathlib.Data.List.TakeWhile
import Mathlib.Tactic

/-!
# Words and the blanks between them

A text splits into words in one way: blanks may stand around the words, and at least one stands
between two of them. The words are those that are found by cutting at every blank. What is trimmed
off a text belongs to no word, and a text that has been trimmed has nothing left to trim.
-/

namespace Agenda
namespace Text

/-- A text without blanks that is not empty. -/
structure IsWord (w : List Char) : Prop where
  ne_nil : w ≠ []
  not_blank : ∀ c ∈ w, isBlank c = false

/-- The text is made of the words, in their order, with blanks around them and at least one blank
between two of them. -/
inductive SplitsInto : List Char → List (List Char) → Prop
  | nil : SplitsInto [] []
  | blank {c : Char} {s : List Char} {ws : List (List Char)} (hc : isBlank c = true)
      (hs : SplitsInto s ws) : SplitsInto (c :: s) ws
  | last {w : List Char} (hw : IsWord w) : SplitsInto w [w]
  | word {w : List Char} {c : Char} {s : List Char} {ws : List (List Char)} (hw : IsWord w)
      (hc : isBlank c = true) (hs : SplitsInto s ws) : SplitsInto (w ++ c :: s) (w :: ws)

@[simp] theorem words_nil : words [] = [] := rfl

theorem words_append_blank {c : Char} (hc : isBlank c = true) (s t : List Char) :
    words (s ++ c :: t) = words s ++ words t := by
  unfold words
  rw [List.splitOnP_append_cons s t hc, List.filter_append]

theorem words_cons_blank {c : Char} (hc : isBlank c = true) (s : List Char) :
    words (c :: s) = words s :=
  words_append_blank hc [] s

theorem words_of_isWord {w : List Char} (hw : IsWord w) : words w = [w] := by
  rw [words, List.splitOnP_eq_singleton hw.not_blank]
  simp [hw.ne_nil]

theorem SplitsInto.words_eq {s : List Char} {ws : List (List Char)} (h : SplitsInto s ws) :
    words s = ws := by
  induction h with
  | nil => rfl
  | blank hc hs ih => rw [words_cons_blank hc, ih]
  | last hw => exact words_of_isWord hw
  | word hw hc hs ih => rw [words_append_blank hc, words_of_isWord hw, ih, List.singleton_append]

theorem eq_nil_or_isWord_takeWhile (s : List Char) :
    s.takeWhile (fun c => !isBlank c) = [] ∨ IsWord (s.takeWhile fun c => !isBlank c) := by
  by_cases hnil : s.takeWhile (fun c => !isBlank c) = []
  · exact .inl hnil
  · refine .inr ⟨hnil, ?_⟩
    intro c hc
    simpa using List.mem_takeWhile_imp hc

theorem splitsInto_words (s : List Char) : SplitsInto s (words s) := by
  induction hn : s.length using Nat.strong_induction_on generalizing s with
  | _ n ih =>
    have hcut := List.takeWhile_append_dropWhile (p := fun c => !isBlank c) (l := s)
    cases hrest : s.dropWhile (fun c => !isBlank c) with
    | nil =>
      -- no blank is left: the text is empty or one word
      rw [hrest, List.append_nil] at hcut
      rcases eq_nil_or_isWord_takeWhile s with hw | hw
      · rw [hcut] at hw
        rw [hw]
        exact .nil
      · rw [hcut] at hw
        rw [words_of_isWord hw]
        exact .last hw
    | cons c t =>
      have hc : isBlank c = true := by
        have hhead := List.head?_dropWhile_not (fun c => !isBlank c) s
        rw [hrest] at hhead
        simpa using hhead
      rw [hrest] at hcut
      have hlength : t.length < n := by
        rw [← hn, ← hcut]
        simp
        omega
      have ht := ih _ hlength t rfl
      rcases eq_nil_or_isWord_takeWhile s with hw | hw
      · rw [hw, List.nil_append] at hcut
        rw [← hcut, words_cons_blank hc]
        exact .blank hc ht
      · rw [← hcut, words_append_blank hc, words_of_isWord hw]
        exact .word hw hc ht

/-- A text splits into its words and in no other way. -/
theorem splitsInto_iff {s : List Char} {ws : List (List Char)} :
    SplitsInto s ws ↔ words s = ws := by
  constructor
  · exact SplitsInto.words_eq
  · rintro rfl
    exact splitsInto_words s

theorem SplitsInto.isWord {s : List Char} {ws : List (List Char)} (h : SplitsInto s ws) :
    ∀ w ∈ ws, IsWord w := by
  induction h with
  | nil => exact List.forall_mem_nil _
  | blank hc hs ih => exact ih
  | last hw => exact List.forall_mem_singleton.mpr hw
  | word hw hc hs ih => exact List.forall_mem_cons.mpr ⟨hw, ih⟩

theorem mem_of_mem_splitOn {s e : List Char} {separator c : Char} (he : e ∈ s.splitOn separator)
    (hc : c ∈ e) : c ∈ s := by
  induction s generalizing e with
  | nil =>
    rw [List.splitOn_nil, List.mem_singleton] at he
    exact he ▸ hc
  | cons x xs ih =>
    rw [List.splitOn_cons_eq_if_modifyHead] at he
    split at he
    · rcases List.mem_cons.mp he with rfl | he
      · cases hc
      · exact List.mem_cons_of_mem x (ih he hc)
    · cases hsplit : xs.splitOn separator with
      | nil => exact absurd hsplit (List.splitOn_ne_nil separator xs)
      | cons first rest =>
        rw [hsplit, List.modifyHead_cons] at he
        rw [hsplit] at ih
        rcases List.mem_cons.mp he with rfl | he
        · exact (List.mem_cons.mp hc).elim (fun h => h ▸ List.mem_cons_self)
            fun hc => List.mem_cons_of_mem x (ih List.mem_cons_self hc)
        · exact List.mem_cons_of_mem x (ih (List.mem_cons_of_mem first he) hc)

/-- The text has no other characters than blanks. -/
def AllBlank (s : List Char) : Prop := ∀ c ∈ s, isBlank c = true

instance (s : List Char) : Decidable (AllBlank s) :=
  decidable_of_iff (s.all isBlank = true) List.all_eq_true

theorem words_blank_append {b : List Char} (hb : AllBlank b) (s : List Char) :
    words (b ++ s) = words s := by
  induction b with
  | nil => rfl
  | cons c b ih =>
    rw [List.cons_append, words_cons_blank (hb c List.mem_cons_self),
      ih fun a ha => hb a (List.mem_cons_of_mem c ha)]

theorem words_append_blanks {b : List Char} (hb : AllBlank b) (s : List Char) :
    words (s ++ b) = words s := by
  induction b with
  | nil => rw [List.append_nil]
  | cons c b ih =>
    have hrest := words_blank_append (fun a ha => hb a (List.mem_cons_of_mem c ha)) []
    rw [List.append_nil, words_nil] at hrest
    rw [words_append_blank (hb c List.mem_cons_self), hrest, List.append_nil]

theorem exists_eq_append_trimmed (s : List Char) :
    ∃ before after, AllBlank before ∧ AllBlank after ∧ s = before ++ trimmed s ++ after := by
  refine ⟨s.takeWhile isBlank, ((s.dropWhile isBlank).reverse.takeWhile isBlank).reverse,
    fun c hc => List.mem_takeWhile_imp hc, ?_, ?_⟩
  · intro c hc
    exact List.mem_takeWhile_imp (List.mem_reverse.mp hc)
  · rw [trimmed, List.append_assoc, ← List.reverse_append, List.takeWhile_append_dropWhile,
      List.reverse_reverse, List.takeWhile_append_dropWhile]

@[simp] theorem words_trimmed (s : List Char) : words (trimmed s) = words s := by
  obtain ⟨before, after, hbefore, hafter, hs⟩ := exists_eq_append_trimmed s
  conv_rhs => rw [hs, words_append_blanks hafter, words_blank_append hbefore]

theorem trimmed_eq_nil_iff {s : List Char} : trimmed s = [] ↔ AllBlank s := by
  constructor
  · intro hnil
    obtain ⟨before, after, hbefore, hafter, hs⟩ := exists_eq_append_trimmed s
    rw [hs, hnil, List.append_nil]
    exact List.forall_mem_append.mpr ⟨hbefore, hafter⟩
  · intro h
    rw [trimmed, List.dropWhile_eq_nil_iff.mpr h]
    rfl

theorem trim_eq_empty_iff {s : String} : trim s = "" ↔ AllBlank s.toList := by
  rw [← trimmed_eq_nil_iff, ← toList_trim, String.toList_eq_nil_iff]

theorem words_eq_nil_iff {s : List Char} : words s = [] ↔ AllBlank s := by
  constructor
  · intro h
    have hsplit := splitsInto_iff.mpr h
    generalize hws : ([] : List (List Char)) = ws at hsplit
    induction hsplit with
    | nil => exact fun c hc => absurd hc (List.not_mem_nil)
    | blank hc hs ih =>
      subst hws
      exact List.forall_mem_cons.mpr ⟨hc, ih hs.words_eq rfl⟩
    | last hw => cases hws
    | word hw hc hs ih => cases hws
  · intro h
    have hblank := words_blank_append h []
    rwa [List.append_nil, words_nil] at hblank

/-- The text neither begins nor ends with a blank character. -/
structure IsTrimmed (s : List Char) : Prop where
  head : ∀ c ∈ s.head?, isBlank c = false
  last : ∀ c ∈ s.getLast?, isBlank c = false

theorem isBlank_of_mem_head?_dropWhile {s : List Char} {c : Char}
    (h : c ∈ (s.dropWhile isBlank).head?) : isBlank c = false := by
  have hhead := List.head?_dropWhile_not isBlank s
  rw [h] at hhead
  exact hhead

theorem isTrimmed_trimmed (s : List Char) : IsTrimmed (trimmed s) where
  head := by
    intro c hc
    have hprefix : trimmed s <+: s.dropWhile isBlank := by
      rw [trimmed, ← List.reverse_suffix, List.reverse_reverse]
      exact List.dropWhile_suffix _
    obtain ⟨after, hafter⟩ := hprefix
    refine isBlank_of_mem_head?_dropWhile (s := s) ?_
    rw [← hafter, List.head?_append, Option.mem_def.mp hc]
    rfl
  last := by
    intro c hc
    rw [trimmed, List.getLast?_reverse] at hc
    exact isBlank_of_mem_head?_dropWhile hc

theorem dropWhile_isBlank_eq_self {s : List Char} (h : ∀ c ∈ s.head?, isBlank c = false) :
    s.dropWhile isBlank = s := by
  cases s with
  | nil => rfl
  | cons c s => rw [List.dropWhile_cons, h c rfl, if_neg Bool.false_ne_true]

theorem IsTrimmed.trimmed_eq {s : List Char} (h : IsTrimmed s) : trimmed s = s := by
  rw [trimmed, dropWhile_isBlank_eq_self h.head, dropWhile_isBlank_eq_self, List.reverse_reverse]
  simpa only [List.head?_reverse] using h.last

@[simp] theorem trimmed_trimmed (s : List Char) : trimmed (trimmed s) = trimmed s :=
  (isTrimmed_trimmed s).trimmed_eq

@[simp] theorem trim_trim (s : String) : trim (trim s) = trim s := by
  rw [trim, toList_trim, trimmed_trimmed, ← toList_trim, String.ofList_toList]

theorem IsTrimmed.trimmed_append {s before after : List Char} (h : IsTrimmed s) (hs : s ≠ [])
    (hbefore : AllBlank before) (hafter : AllBlank after) :
    trimmed (before ++ s ++ after) = s := by
  have hfirst : (before ++ s ++ after).dropWhile isBlank = s ++ after := by
    rw [List.append_assoc, List.dropWhile_append_of_pos hbefore]
    apply dropWhile_isBlank_eq_self
    rw [List.head?_append_of_ne_nil _ hs]
    exact h.head
  have hlast : AllBlank after.reverse :=
    fun c hc => hafter c (List.mem_reverse.mp hc)
  rw [trimmed, hfirst, List.reverse_append, List.dropWhile_append_of_pos hlast,
    dropWhile_isBlank_eq_self, List.reverse_reverse]
  simpa only [List.head?_reverse] using h.last

theorem isTrimmed_of_not_blank {s : List Char} (h : ∀ c ∈ s, isBlank c = false) : IsTrimmed s :=
  ⟨fun c hc => h c (List.mem_of_mem_head? hc), fun c hc => h c (List.mem_of_getLast? hc)⟩

theorem trimmed_eq_self {s : List Char} (h : ∀ c ∈ s, isBlank c = false) : trimmed s = s :=
  (isTrimmed_of_not_blank h).trimmed_eq

theorem isBlank_of_printable {c : Char} (hlow : 0x20 < c.toNat) (hhigh : c.toNat ≤ 0x7E) :
    isBlank c = false := by
  simp only [isBlank, Bool.or_eq_false_iff, Bool.and_eq_false_iff, beq_eq_false_iff_ne,
    decide_eq_false_iff_not]
  omega

end Text
end Agenda
