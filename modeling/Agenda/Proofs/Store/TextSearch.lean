import Agenda.Proofs.Store.Like
import Agenda.Proofs.Store.Listing

/-!
# Searching for a text

A query for a text never misses a row that shows it in its title or its comment, in whatever case
its ASCII letters are, also when the text itself has wildcards. Without wildcards the query finds no
other rows, except that the two noncharacters of the basic plane and U+FFFD count as one character.
So a text with none of these three is found just where it is a part.
-/

namespace Agenda

open Like Text

/-- The title or the comment contains the text, up to a function on characters. Both are read up to
their first U+0000. -/
def Row.Shows (f : Char → Char) (text : String) (row : Row) : Prop :=
  ContainsUpTo f text.toList (visible row.title.toList) ∨
    ContainsUpTo f text.toList (visible row.comment.toList)

instance (f : Char → Char) (text : String) (row : Row) : Decidable (row.Shows f text) :=
  inferInstanceAs (Decidable (_ ∨ _))

namespace Store

variable {s : Store} {text : String} {row : Row} {limit : Nat}

theorem items_containing (h : '\x00' ∉ text.toList) :
    (visible (containing text)).map Item.ofChar =
      .anyRun :: text.toList.map Item.ofChar ++ [.anyRun] := by
  have hvisible : visible (containing text) = containing text := by
    rw [visible, List.takeWhile_eq_self_iff]
    intro c hc
    have hne : c ≠ '\x00' := by
      rintro rfl
      simp [containing, h] at hc
    exact decide_eq_true hne
  rw [hvisible, containing]
  simp [Item.ofChar]

theorem isMatch_containing_iff (h : '\x00' ∉ text.toList) :
    isMatch (.containing text) row = true ↔
      Matches (.anyRun :: text.toList.map Item.ofChar ++ [.anyRun]) (visible row.title.toList) ∨
      Matches (.anyRun :: text.toList.map Item.ofChar ++ [.anyRun])
        (visible row.comment.toList) := by
  rw [isMatch, Bool.or_eq_true, matchesPattern_iff, matchesPattern_iff, items_containing h]

/-- No row that shows the text is missed. -/
theorem isMatch_of_shows (h : '\x00' ∉ text.toList) (hshows : row.Shows Char.toLower text) :
    isMatch (.containing text) row = true :=
  (isMatch_containing_iff h).mpr (hshows.imp
    (fun htitle => matches_of_containsUpTo_fold htitle.fold_of_toLower)
    (fun hcomment => matches_of_containsUpTo_fold hcomment.fold_of_toLower))

theorem isMatch_iff_shows_fold (h : '\x00' ∉ text.toList) (hplain : IsPlain text.toList) :
    isMatch (.containing text) row = true ↔ row.Shows fold text := by
  rw [isMatch_containing_iff h, matches_iff_containsUpTo_fold hplain,
    matches_iff_containsUpTo_fold hplain, Row.Shows]

theorem shows_fold_iff (h : ∀ c ∈ text.toList, IsUnambiguous c) :
    row.Shows fold text ↔ row.Shows Char.toLower text := by
  rw [Row.Shows, Row.Shows, containsUpTo_fold_iff h, containsUpTo_fold_iff h]

theorem list_eq_of_length_le {query : Query} (hquery : Fits query)
    (hrows : s.rows.length ≤ int64Max) (hlimit : s.rows.length ≤ limit) :
    s.list query limit =
      .ok (((s.rows.filter (isMatch query)).mergeSort Row.before).map Row.toTask) := by
  have hlength :
      ((s.rows.filter (isMatch query)).mergeSort Row.before).length ≤ rowLimit limit := by
    have hfilter := List.length_filter_le (isMatch query) s.rows
    rw [List.length_mergeSort, rowLimit]
    omega
  rw [list_of_fits hquery, List.take_of_length_le hlength]

/-- A query for a text, with a limit that cuts nothing off, lists every row whose title or comment
contains it, whatever the case of ASCII letters, also when the text has wildcards. When it has none
the rows listed are those that contain it up to the characters that are read as U+FFFD, and when it
has none of these either, just those that contain it. -/
theorem list_text_search (s : Store) (text : String) (limit : Nat) (hnul : '\x00' ∉ text.toList)
    (hsize : text.utf8ByteSize ≤ 49998) (hrows : s.rows.length ≤ int64Max)
    (hlimit : s.rows.length ≤ limit) :
    ∃ rows : List Row, s.list (.containing text) limit = .ok (rows.map Row.toTask) ∧
      rows.Subperm s.rows ∧
      (∀ row ∈ s.rows, row.Shows Char.toLower text → row ∈ rows) ∧
      (IsPlain text.toList → ∀ row, row ∈ rows ↔ row ∈ s.rows ∧ row.Shows fold text) ∧
      (IsPlain text.toList → (∀ c ∈ text.toList, IsUnambiguous c) →
        ∀ row, row ∈ rows ↔ row ∈ s.rows ∧ row.Shows Char.toLower text) := by
  have hfits : Fits (.containing text) := by
    rintro t ⟨⟩
    exact Nat.add_le_add_right hsize 2
  have hmem : ∀ row, row ∈ (s.rows.filter (isMatch (.containing text))).mergeSort Row.before ↔
      row ∈ s.rows ∧ isMatch (.containing text) row = true := by
    intro row
    rw [List.mem_mergeSort, List.mem_filter]
  refine ⟨_, list_eq_of_length_le hfits hrows hlimit, ?_, ?_, ?_, ?_⟩
  · exact (List.mergeSort_perm _ _).subperm.trans List.filter_sublist.subperm
  · intro row hrow hshows
    exact (hmem row).mpr ⟨hrow, isMatch_of_shows hnul hshows⟩
  · intro hplain row
    rw [hmem, isMatch_iff_shows_fold hnul hplain]
  · intro hplain hunambiguous row
    rw [hmem, isMatch_iff_shows_fold hnul hplain, shows_fold_iff hunambiguous]

/-- A percent sign in the text is found as itself. A title ends at U+0000, and the rest of the word
behind it is not found. -/
theorem list_text_search_sale : ∃ (s : Store) (sale gym : Row) (rows rows' : List Row),
    s.rows = [sale, gym] ∧ sale.comment = "all 50% OFF" ∧ gym.title = "gy\x00m" ∧
    s.list (.containing "50% off") 2 = .ok (rows.map Row.toTask) ∧ sale ∈ rows ∧
    s.list (.containing "gym") 2 = .ok (rows'.map Row.toTask) ∧ gym ∉ rows' := by
  let sale : Row := ⟨1, "20240201", "shop", "all 50% OFF", ""⟩
  let gym : Row := ⟨2, "20240201", "gy\x00m", "", ""⟩
  let s : Store := ⟨[sale, gym], 2⟩
  obtain ⟨rows, hlist, -, hnone, -, -⟩ :=
    list_text_search s "50% off" 2 (by decide) (by decide) (by decide) (by decide)
  obtain ⟨rows', hlist', -, -, -, hjust⟩ :=
    list_text_search s "gym" 2 (by decide) (by decide) (by decide) (by decide)
  refine ⟨s, sale, gym, rows, rows', rfl, rfl, rfl, hlist, hnone sale (by simp [s]) ?_, hlist', ?_⟩
  · exact .inr (by decide)
  · rw [hjust (by decide) (by simp [IsUnambiguous, IsReplaced])]
    decide

/-- A search for one noncharacter finds a row with the other one, which does not contain it. -/
theorem noncharacter_finds_another : ∃ (s : Store) (row : Row), Reachable s ∧ s.rows = [row] ∧
    row.title = "\uFFFE" ∧ row.comment = "" ∧ '\x00' ∉ "\uFFFF".toList ∧
    "\uFFFF".utf8ByteSize ≤ 49998 ∧ IsPlain "\uFFFF".toList ∧
    s.list (.containing "\uFFFF") 1 = .ok [row.toTask] ∧ ¬ row.Shows Char.toLower "\uFFFF" := by
  let task : Task := ⟨"", "20240101", "\uFFFE", "", ""⟩
  let row : Row := Row.ofTask 1 task
  let s : Store := (empty.add task).1
  have hfits : Fits (.containing "\uFFFF") := by
    rintro text ⟨⟩
    decide
  have hlist : s.list (.containing "\uFFFF") 1 = _ :=
    list_eq_of_length_le hfits (by decide) (by decide)
  have hfilter : s.rows.filter (isMatch (.containing "\uFFFF")) = [row] := by decide +kernel
  rw [hfilter, List.mergeSort_singleton] at hlist
  exact ⟨s, row, .perform (.add task) .empty, rfl, rfl, rfl, by decide, by decide, by decide, hlist,
    by decide⟩

end Store
end Agenda
