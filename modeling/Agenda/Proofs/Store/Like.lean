import Agenda.Store.Like
import Mathlib

/-!
# What a wildcard pattern matches

A pattern matches a text when its items stand for consecutive parts of the text. The search, which
tries the rests of a pattern on the suffixes of a text and gives up as soon as one of them is
exhausted, finds a match whenever there is one. So the pattern that has a run on both sides of a
text matches what contains this text: its wildcards stand for themselves among others, and without
wildcards nothing else is matched.
-/

namespace Agenda
namespace Like

/-- The items stand for the parts of the text, in their order. -/
inductive Matches : List Item → List Char → Prop
  | nil : Matches [] []
  | anyRun {items : List Item} {text : List Char} (run : List Char) (h : Matches items text) :
      Matches (.anyRun :: items) (run ++ text)
  | anyOne {items : List Item} {text : List Char} (d : Char) (h : Matches items text) :
      Matches (.anyOne :: items) (d :: text)
  | char {items : List Item} {text : List Char} {c d : Char} (hfold : fold c = fold d)
      (h : Matches items text) : Matches (.char c :: items) (d :: text)

variable {items : List Item} {text part : List Char} {p : List Char → Prop}

theorem matches_anyRun_iff :
    Matches (.anyRun :: items) text ↔ ∃ t, t <:+ text ∧ Matches items t := by
  constructor
  · intro h
    cases h with
    | anyRun run h => exact ⟨_, List.suffix_append run _, h⟩
  · rintro ⟨t, ⟨run, rfl⟩, h⟩
    exact .anyRun run h

theorem matches_append_iff {front back : List Item} :
    Matches (front ++ back) text ↔
      ∃ s t, text = s ++ t ∧ Matches front s ∧ Matches back t := by
  constructor
  · intro h
    induction front generalizing text with
    | nil => exact ⟨[], text, rfl, .nil, h⟩
    | cons item front ih =>
      cases h with
      | anyRun run h =>
        obtain ⟨s, t, rfl, hs, ht⟩ := ih h
        exact ⟨run ++ s, t, (List.append_assoc run s t).symm, .anyRun run hs, ht⟩
      | anyOne d h =>
        obtain ⟨s, t, rfl, hs, ht⟩ := ih h
        exact ⟨d :: s, t, rfl, .anyOne d hs, ht⟩
      | char hfold h =>
        obtain ⟨s, t, rfl, hs, ht⟩ := ih h
        exact ⟨_ :: s, t, rfl, .char hfold hs, ht⟩
  · rintro ⟨s, t, rfl, hs, ht⟩
    induction hs with
    | nil => exact ht
    | anyRun run _ ih =>
      rw [List.append_assoc]
      exact .anyRun run ih
    | anyOne d _ ih => exact .anyOne d ih
    | char hfold _ ih => exact .char hfold ih

/-- What an outcome says about the text: it has the property, or it has not, or none of its
suffixes has. -/
def Outcome.Tells (p : List Char → Prop) (text : List Char) : Outcome → Prop
  | matched => p text
  | mismatched => ¬ p text
  | exhausted => ∀ t, t <:+ text → ¬ p t

theorem Outcome.Tells.not_of_ne {o : Outcome} (h : o.Tells p text) (hne : o ≠ .matched) :
    ¬ p text := by
  cases o with
  | matched => exact absurd rfl hne
  | mismatched => exact h
  | exhausted => exact h text List.suffix_rfl

/-- The search looks for a suffix with the property, and where it fails no suffix has it. -/
theorem search_tells {rest : List Char → Outcome} (hrest : ∀ t, (rest t).Tells p t)
    (text : List Char) : (search rest text).Tells (fun s => ∃ t, t <:+ s ∧ p t) text := by
  induction text with
  | nil =>
    rw [search]
    have hnil := hrest []
    split
    · rename_i hmatched
      rw [hmatched] at hnil
      exact ⟨[], List.suffix_rfl, hnil⟩
    · rename_i hne
      rintro s hs ⟨t, ht, hp⟩
      rw [List.suffix_nil.mp (ht.trans hs)] at hp
      exact hnil.not_of_ne hne hp
  | cons c text ih =>
    rw [search]
    have hcons := hrest (c :: text)
    split
    · rename_i hmatched
      rw [hmatched] at hcons
      exact ⟨c :: text, List.suffix_rfl, hcons⟩
    · rename_i hexhausted
      rw [hexhausted] at hcons
      rintro s hs ⟨t, ht, hp⟩
      exact hcons t (ht.trans hs) hp
    · rename_i hmismatched
      rw [hmismatched] at hcons
      -- the whole text does not have the property, so a suffix that has it is a shorter one
      have hshorter : ∀ t, t <:+ c :: text → p t → t <:+ text := by
        intro t ht hp
        rcases List.suffix_cons_iff.mp ht with rfl | ht
        · exact absurd hp hcons
        · exact ht
      revert ih
      generalize search rest text = o
      intro ih
      cases o with
      | matched =>
        obtain ⟨t, ht, hp⟩ := ih
        exact ⟨t, ht.trans (List.suffix_cons c text), hp⟩
      | mismatched =>
        rintro ⟨t, ht, hp⟩
        exact ih ⟨t, hshorter t ht hp, hp⟩
      | exhausted =>
        rintro s hs ⟨t, ht, hp⟩
        exact ih t (hshorter t (ht.trans hs) hp) ⟨t, List.suffix_rfl, hp⟩

/-- An item for one character, which the first character of the text passes, leaves the rest of
the items to the rest of the text. -/
theorem Outcome.Tells.cons {q : List Char → Prop} {o : Outcome} {c : Char} (h : o.Tells p text)
    (hfirst : q (c :: text) ↔ p text) (hlater : ∀ d t, q (d :: t) → p t) (hnil : ¬ q []) :
    o.Tells q (c :: text) := by
  cases o with
  | matched => exact hfirst.mpr h
  | mismatched => exact fun hq => h (hfirst.mp hq)
  | exhausted =>
    intro t ht hq
    cases t with
    | nil => exact hnil hq
    | cons d t =>
      have hsuffix : t <:+ text := by
        rcases List.suffix_cons_iff.mp ht with heq | ht
        · rw [(List.cons.inj heq).2]
        · exact (List.suffix_cons d t).trans ht
      exact h t hsuffix (hlater d t hq)

theorem outcome_tells (items : List Item) (text : List Char) :
    (outcome items text).Tells (Matches items) text := by
  induction items generalizing text with
  | nil =>
    cases text with
    | nil => exact .nil
    | cons d text =>
      intro h
      cases h
  | cons item items ih =>
    cases item with
    | anyRun =>
      have hmatches : Matches (.anyRun :: items) = fun s => ∃ t, t <:+ s ∧ Matches items t :=
        funext fun _ => propext matches_anyRun_iff
      rw [outcome, hmatches]
      exact search_tells ih text
    | anyOne =>
      cases text with
      | nil =>
        intro h
        cases h
      | cons d text =>
        refine (ih text).cons ⟨?_, .anyOne d⟩ ?_ nofun
        · rintro (_ | _ | ⟨-, h⟩)
          exact h
        · rintro d t (_ | _ | ⟨-, h⟩)
          exact h
    | char c =>
      cases text with
      | nil =>
        intro h
        cases h
      | cons d text =>
        rw [outcome]
        split
        · rename_i hfold
          refine (ih text).cons ⟨?_, .char hfold⟩ ?_ nofun
          · rintro (_ | _ | _ | ⟨-, h⟩)
            exact h
          · rintro d t (_ | _ | _ | ⟨-, h⟩)
            exact h
        · rename_i hfold
          rintro (_ | _ | _ | ⟨heq, -⟩)
          exact hfold heq

theorem outcome_eq_matched_iff : outcome items text = .matched ↔ Matches items text := by
  have htells := outcome_tells items text
  constructor
  · intro h
    rwa [h] at htells
  · intro h
    by_contra hne
    exact htells.not_of_ne hne h

theorem matchesPattern_iff {pattern : List Char} :
    matchesPattern pattern text = true ↔
      Matches ((visible pattern).map Item.ofChar) (visible text) := by
  rw [matchesPattern, beq_iff_eq, outcome_eq_matched_iff]

theorem matches_between_runs_iff :
    Matches (.anyRun :: items ++ [.anyRun]) text ↔ ∃ m, m <:+: text ∧ Matches items m := by
  rw [List.cons_append, matches_anyRun_iff]
  constructor
  · rintro ⟨t, ht, h⟩
    obtain ⟨m, after, rfl, hm, -⟩ := matches_append_iff.mp h
    exact ⟨m, (List.prefix_append m after).isInfix.trans ht.isInfix, hm⟩
  · rintro ⟨m, ⟨before, after, rfl⟩, hm⟩
    have hafter : Matches [.anyRun] (after ++ []) := .anyRun after .nil
    rw [List.append_nil] at hafter
    refine ⟨m ++ after, ?_, matches_append_iff.mpr ⟨m, after, rfl, hm, hafter⟩⟩
    rw [List.append_assoc]
    exact List.suffix_append before _

/-- A wildcard stands for itself among others. -/
theorem matches_of_map_fold_eq {m : List Char} (h : m.map fold = part.map fold) :
    Matches (part.map Item.ofChar) m := by
  induction part generalizing m with
  | nil =>
    rw [List.map_nil, List.map_eq_nil_iff] at h
    rw [h]
    exact .nil
  | cons c part ih =>
    obtain ⟨d, t, rfl, hfold, ht⟩ := List.map_eq_cons_iff.mp h
    rw [List.map_cons, Item.ofChar]
    split_ifs
    · exact .anyRun [d] (ih ht)
    · exact .anyOne d (ih ht)
    · exact .char hfold.symm (ih ht)

def IsPlain (s : List Char) : Prop := ∀ c ∈ s, c ≠ '%' ∧ c ≠ '_'

instance (s : List Char) : Decidable (IsPlain s) := List.decidableBAll _ _

theorem matches_iff_of_isPlain {m : List Char} (hpart : IsPlain part) :
    Matches (part.map Item.ofChar) m ↔ m.map fold = part.map fold := by
  refine ⟨fun h => ?_, matches_of_map_fold_eq⟩
  induction part generalizing m with
  | nil =>
    cases h
    rfl
  | cons c part ih =>
    obtain ⟨⟨hrun, hone⟩, hrest⟩ := List.forall_mem_cons.mp hpart
    rw [List.map_cons, Item.ofChar, if_neg hrun, if_neg hone] at h
    cases h with
    | char hfold h => rw [List.map_cons, List.map_cons, hfold, ih hrest h]

/-- The part stands in the text when both are read through a function on characters. -/
def ContainsUpTo (f : Char → Char) (part text : List Char) : Prop := part.map f <:+: text.map f

instance (f : Char → Char) (part text : List Char) : Decidable (ContainsUpTo f part text) :=
  inferInstanceAs (Decidable (_ <:+: _))

variable {f g : Char → Char}

theorem containsUpTo_iff : ContainsUpTo f part text ↔ ∃ m, m <:+: text ∧ m.map f = part.map f := by
  simp only [ContainsUpTo, List.infix_map_iff, eq_comm]

theorem map_eq_map_of_imp {m : List Char} (hfg : ∀ c ∈ part, ∀ d, f d = f c → g d = g c)
    (h : m.map f = part.map f) : m.map g = part.map g := by
  induction part generalizing m with
  | nil =>
    rw [List.map_nil, List.map_eq_nil_iff] at h
    rw [h]
  | cons c part ih =>
    obtain ⟨d, t, rfl, hd, ht⟩ := List.map_eq_cons_iff.mp h
    obtain ⟨hc, hpart⟩ := List.forall_mem_cons.mp hfg
    rw [List.map_cons, List.map_cons, hc d hd, ih hpart ht]

theorem ContainsUpTo.imp (hfg : ∀ c ∈ part, ∀ d, f d = f c → g d = g c)
    (h : ContainsUpTo f part text) : ContainsUpTo g part text := by
  obtain ⟨m, hm, heq⟩ := containsUpTo_iff.mp h
  exact containsUpTo_iff.mpr ⟨m, hm, map_eq_map_of_imp hfg heq⟩

theorem matches_of_containsUpTo_fold (h : ContainsUpTo fold part text) :
    Matches (.anyRun :: part.map Item.ofChar ++ [.anyRun]) text := by
  obtain ⟨m, hm, heq⟩ := containsUpTo_iff.mp h
  exact matches_between_runs_iff.mpr ⟨m, hm, matches_of_map_fold_eq heq⟩

theorem matches_iff_containsUpTo_fold (hpart : IsPlain part) :
    Matches (.anyRun :: part.map Item.ofChar ++ [.anyRun]) text ↔ ContainsUpTo fold part text := by
  rw [matches_between_runs_iff, containsUpTo_iff]
  simp only [matches_iff_of_isPlain hpart]

def IsReplaced (c : Char) : Prop := c = '\uFFFE' ∨ c = '\uFFFF'

instance (c : Char) : Decidable (IsReplaced c) := inferInstanceAs (Decidable (_ ∨ _))

theorem fold_of_isReplaced {c : Char} (h : IsReplaced c) : fold c = '\uFFFD' := by
  rcases h with rfl | rfl <;> rfl

theorem isUpper_iff {c : Char} : c.isUpper = true ↔ 'A' ≤ c ∧ c ≤ 'Z' := decide_eq_true_iff

theorem fold_of_not_isReplaced {c : Char} (h : ¬ IsReplaced c) : fold c = c.toLower := by
  rw [fold]
  split
  · rename_i hupper
    exact (Char.toLower_eq_of_isUpper (isUpper_iff.mpr hupper)).symm
  · rename_i hupper
    rw [← isUpper_iff] at hupper
    exact (if_neg h).trans (Char.toLower_eq_of_not_isUpper hupper).symm

theorem eq_of_toLower_eq {c d : Char} (h : c.toLower = d) (hd : d.isLower = false) : c = d := by
  rw [← h, Char.isLower_toLower_eq_isAlpha, Char.isAlpha, Bool.or_eq_false_iff] at hd
  rw [← h, Char.toLower_eq_of_not_isUpper (by simp [hd.1])]

theorem IsReplaced.toLower_eq_iff {c d : Char} (h : IsReplaced d) :
    c.toLower = d.toLower ↔ c = d := by
  constructor
  · rcases h with rfl | rfl <;> exact fun heq => eq_of_toLower_eq heq rfl
  · exact congrArg Char.toLower

theorem fold_eq_of_toLower_eq {c d : Char} (h : c.toLower = d.toLower) : fold c = fold d := by
  by_cases hd : IsReplaced d
  · rw [hd.toLower_eq_iff.mp h]
  · by_cases hc : IsReplaced c
    · rw [hc.toLower_eq_iff.mp h.symm]
    · rw [fold_of_not_isReplaced hc, fold_of_not_isReplaced hd, h]

def IsUnambiguous (c : Char) : Prop := c ≠ '\uFFFD' ∧ ¬ IsReplaced c

instance (c : Char) : Decidable (IsUnambiguous c) := inferInstanceAs (Decidable (_ ∧ _))

theorem toLower_eq_of_fold_eq {c d : Char} (hc : IsUnambiguous c) (h : fold d = fold c) :
    d.toLower = c.toLower := by
  rw [fold_of_not_isReplaced hc.2] at h
  by_cases hd : IsReplaced d
  · rw [fold_of_isReplaced hd] at h
    exact absurd (eq_of_toLower_eq h.symm rfl) hc.1
  · rwa [fold_of_not_isReplaced hd] at h

theorem ContainsUpTo.fold_of_toLower (h : ContainsUpTo Char.toLower part text) :
    ContainsUpTo fold part text :=
  h.imp fun _ _ _ => fold_eq_of_toLower_eq

theorem containsUpTo_fold_iff (hpart : ∀ c ∈ part, IsUnambiguous c) :
    ContainsUpTo fold part text ↔ ContainsUpTo Char.toLower part text :=
  ⟨fun h => h.imp fun c hc _ => toLower_eq_of_fold_eq (hpart c hc), ContainsUpTo.fold_of_toLower⟩

end Like
end Agenda
