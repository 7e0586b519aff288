import Agenda.Proofs.Calendar.Order
import Agenda.Proofs.Store.Effect
import Mathlib.Data.String.Basic

/-!
# Lists of tasks

Rows are listed by date and then by id, which is a total order, so that the rows which match a query
have one list without repetitions, and the answer to the query is its beginning. Dates are compared
as texts, and on the written forms of days in the years 0 to 9999 that is the order of the calendar.
So tasks with such dates are listed from the earliest to the latest.
-/

namespace Agenda

open Text

namespace Row

variable {a b c : Row}

theorem before_iff : a.before b = true ↔ a.date < b.date ∨ a.date = b.date ∧ a.id ≤ b.id := by
  rw [before, Bool.or_eq_true, Bool.and_eq_true, decide_eq_true_iff, decide_eq_true_iff, beq_iff_eq]

theorem before_trans (hab : a.before b = true) (hbc : b.before c = true) : a.before c = true := by
  rw [before_iff] at hab hbc ⊢
  rcases hab with hab | ⟨hab, hid⟩
  · refine .inl ?_
    rcases hbc with hbc | ⟨hbc, -⟩
    · exact hab.trans hbc
    · exact hbc ▸ hab
  · rw [hab]
    exact hbc.imp_right fun h => ⟨h.1, hid.trans h.2⟩

theorem before_total (a b : Row) : (a.before b || b.before a) = true := by
  rw [Bool.or_eq_true, before_iff, before_iff]
  rcases lt_trichotomy a.date b.date with hlt | heq | hlt
  · exact .inl (.inl hlt)
  · rcases Nat.le_total a.id b.id with hid | hid
    · exact .inl (.inr ⟨heq, hid⟩)
    · exact .inr (.inr ⟨heq.symm, hid⟩)
  · exact .inr (.inl hlt)

theorem pairwise_mergeSort_before (rows : List Row) :
    (rows.mergeSort before).Pairwise fun a b => a.before b = true := by
  apply List.pairwise_mergeSort
  · intro a b c hab hbc
    exact before_trans hab hbc
  · exact before_total

theorem date_le_of_before (h : a.before b = true) : a.date ≤ b.date := by
  rcases before_iff.mp h with hlt | ⟨heq, -⟩
  · exact hlt.le
  · exact heq.le

/-- The row is listed before the other one: by the bytes of its date, and by its id on one date. -/
def Precedes (a b : Row) : Prop :=
  utf8Bytes a.date.toList < utf8Bytes b.date.toList ∨ a.date = b.date ∧ a.id < b.id

theorem precedes_iff : a.Precedes b ↔ a.date < b.date ∨ a.date = b.date ∧ a.id < b.id := by
  rw [Precedes, utf8Bytes_lt_utf8Bytes_iff]
  rfl

theorem precedes_of_before (h : a.before b = true) (hid : a.id ≠ b.id) : a.Precedes b := by
  rw [precedes_iff]
  exact (before_iff.mp h).imp_right fun h => ⟨h.1, Nat.lt_of_le_of_ne h.2 hid⟩

theorem Precedes.not_precedes (h : a.Precedes b) : ¬ b.Precedes a := by
  rw [precedes_iff] at h ⊢
  rintro (hlt | ⟨heq, hid⟩)
  · rcases h with h | ⟨h, -⟩
    · exact lt_asymm h hlt
    · exact absurd h.symm hlt.ne
  · rcases h with h | ⟨-, h⟩
    · exact absurd heq.symm h.ne
    · exact Nat.lt_asymm h hid

theorem Precedes.ne (h : a.Precedes b) : a ≠ b := by
  rintro rfl
  exact h.not_precedes h

theorem add_length_le {rows : List Row} {k m : Nat}
    (hascending : rows.Pairwise fun a b => a.id < b.id) (hlow : ∀ row ∈ rows, k < row.id)
    (hhigh : ∀ row ∈ rows, row.id ≤ m) (hk : k ≤ m) : k + rows.length ≤ m := by
  induction rows generalizing k with
  | nil => exact hk
  | cons row rows ih =>
    obtain ⟨hrow, hrows⟩ := List.pairwise_cons.mp hascending
    obtain ⟨hfirst, -⟩ := List.forall_mem_cons.mp hlow
    obtain ⟨hlast, hhigh⟩ := List.forall_mem_cons.mp hhigh
    have hrest := ih hrows hrow hhigh hlast
    rw [List.length_cons]
    omega

end Row

namespace Store

variable {s : Store} {query : Query} {limit : Nat} {tasks : List Task}

theorem eq_of_list_eq_ok (h : s.list query limit = .ok tasks) :
    tasks = (((s.rows.filter (isMatch query)).mergeSort Row.before).take (rowLimit limit)).map
      Row.toTask := by
  unfold list at h
  split at h
  · cases h
  · exact (Except.ok.inj h).symm

/-- The rows that match the query, each once and in their order. -/
structure IsListing (s : Store) (query : Query) (rows : List Row) : Prop where
  mem_iff : ∀ row, row ∈ rows ↔ row ∈ s.rows ∧ isMatch query row = true
  sorted : rows.Pairwise Row.Precedes

variable {rows rows' : List Row}

theorem IsListing.nodup (h : s.IsListing query rows) : rows.Nodup := h.sorted.imp Row.Precedes.ne

theorem IsListing.unique (h : s.IsListing query rows) (h' : s.IsListing query rows') :
    rows = rows' := by
  have hmem : ∀ row, row ∈ rows ↔ row ∈ rows' := fun row =>
    (h.mem_iff row).trans (h'.mem_iff row).symm
  have hperm : rows.Perm rows' := (List.perm_ext_iff_of_nodup h.nodup h'.nodup).mpr hmem
  refine hperm.eq_of_pairwise ?_ h.sorted h'.sorted
  intro a b _ _ hab hba
  exact absurd hba hab.not_precedes

theorem Keyed.isListing (hs : s.Keyed) (query : Query) :
    s.IsListing query ((s.rows.filter (isMatch query)).mergeSort Row.before) where
  mem_iff row := by rw [List.mem_mergeSort, List.mem_filter]
  sorted := by
    have hids : (s.rows.filter (isMatch query)).Pairwise fun a b => a.id ≠ b.id :=
      (hs.ascending.sublist List.filter_sublist).imp Nat.ne_of_lt
    have hsorted := (List.mergeSort_perm _ Row.before).symm.pairwise hids Ne.symm
    exact ((Row.pairwise_mergeSort_before _).and hsorted).imp fun h =>
      Row.precedes_of_before h.1 h.2

theorem Keyed.length_rows_le (hs : s.Keyed) : s.rows.length ≤ s.lastId := by
  have h := Row.add_length_le hs.ascending hs.pos hs.le_lastId (Nat.zero_le _)
  rwa [Nat.zero_add] at h

theorem IsListing.length_le (h : s.IsListing query rows) : rows.length ≤ s.rows.length :=
  (List.subperm_of_subset h.nodup fun row hrow => ((h.mem_iff row).mp hrow).1).length_le

/-- The pattern of the query is short enough to be tested. -/
def Fits (query : Query) : Prop :=
  ∀ text, query = .containing text → text.utf8ByteSize + 2 ≤ maxPatternBytes

theorem isTooComplex_eq_false (h : Fits query) : isTooComplex query = false := by
  cases query with
  | all => rfl
  | onDate date => rfl
  | containing text => exact decide_eq_false (Nat.not_lt.mpr (h text rfl))

theorem list_of_fits (hquery : Fits query) (limit : Nat) :
    s.list query limit = .ok ((((s.rows.filter (isMatch query)).mergeSort Row.before).take
      (rowLimit limit)).map Row.toTask) := by
  rw [list, isTooComplex_eq_false hquery]
  rfl

theorem Keyed.list_eq (hs : s.Keyed) (hmax : s.lastId ≤ int64Max) (hquery : Fits query)
    (hrows : s.IsListing query rows) (limit : Nat) :
    s.list query limit = .ok ((rows.take limit).map Row.toTask) := by
  have hlength : rows.length ≤ int64Max.toNat := by
    have hle := hrows.length_le.trans hs.length_rows_le
    omega
  have htake : rows.take (rowLimit limit) = rows.take limit := by
    rw [rowLimit, ← List.take_take, List.take_of_length_le hlength]
  rw [list_of_fits hquery, ← hrows.unique (hs.isListing query), htake]

theorem IsListing.mem_iff_of_onDate {date : String} (h : s.IsListing (.onDate date) rows)
    (row : Row) : row ∈ rows ↔ row ∈ s.rows ∧ row.date = date := by
  rw [h.mem_iff, isMatch, beq_iff_eq]

theorem length_le_of_list (h : s.list query limit = .ok tasks) : tasks.length ≤ limit := by
  have hlimit : rowLimit limit ≤ limit := Nat.min_le_left _ _
  rw [eq_of_list_eq_ok h, List.length_map]
  exact (List.length_take_le _ _).trans hlimit

theorem pairwise_date_le_of_list (h : s.list query limit = .ok tasks) :
    tasks.Pairwise fun a b => a.date ≤ b.date := by
  have hsorted := Row.pairwise_mergeSort_before (s.rows.filter (isMatch query))
  rw [eq_of_list_eq_ok h, List.pairwise_map]
  exact (hsorted.sublist (List.take_sublist _ _)).imp Row.date_le_of_before

/-- A text of eight digits is read as the day whose written form it is. Of all days, those of the
years 0 to 9999 are read back from their written form, and no other one is. The earlier of two such
days has the smaller form, byte by byte, so that all lists of tasks have these dates in the order of
the calendar. -/
theorem text_chronological :
    (∀ (text : String) (d : Day), Day.ofText? text = some d →
      d.text = text ∧ 0 ≤ d.year ∧ d.year ≤ 9999) ∧
    (∀ d : Day, Day.ofText? d.text = if 0 ≤ d.year ∧ d.year ≤ 9999 then some d else none) ∧
    (∀ d e : Day, 0 ≤ d.year ∧ d.year ≤ 9999 → 0 ≤ e.year ∧ e.year ≤ 9999 →
      (d < e ↔ utf8Bytes d.text.toList < utf8Bytes e.text.toList)) ∧
    (∀ (s : Store) (query : Query) (limit : Nat) (tasks : List Task),
      s.list query limit = .ok tasks →
      tasks.Pairwise fun a b => ∀ d e : Day, 0 ≤ d.year ∧ d.year ≤ 9999 →
        0 ≤ e.year ∧ e.year ≤ 9999 → a.date = d.text → b.date = e.text → d ≤ e) := by
  refine ⟨fun text d h => ?_, Day.ofText?_text_eq, fun d e hd he => ?_,
    fun s query limit tasks h => ?_⟩
  · obtain ⟨rfl, hyear⟩ := Day.ofText?_eq_some_iff.mp h
    exact ⟨rfl, hyear⟩
  · rw [Day.toList_text, Day.toList_text, Day.utf8Bytes_chars_lt_iff hd he]
  · refine (pairwise_date_le_of_list h).imp fun {a b} hle d e hd he ha hb => ?_
    rw [ha, hb, ← not_lt, Day.text_lt_text_iff he hd] at hle
    exact Int.not_lt.mp hle

/-- The leap day of 2024 is written before the first of March, and its task is listed first. -/
theorem text_chronological_leapDay : ∃ (s : Store) (d e : Day) (tasks : List Task),
    s = ⟨[⟨1, "20240301", "rent", "", ""⟩, ⟨2, "20240229", "walk", "", ""⟩], 2⟩ ∧
    Day.ofText? "20240229" = some d ∧ d.text = "20240229" ∧ Day.ofText? "20240301" = some e ∧
    d < e ∧ utf8Bytes "20240229".toList < utf8Bytes "20240301".toList ∧
    s.list .all 2 = .ok tasks ∧ tasks = [⟨"2", "20240229", "walk", "", ""⟩,
      ⟨"1", "20240301", "rent", "", ""⟩] ∧ d ≤ e := by
  obtain ⟨hread, hform, horder, hlist⟩ := text_chronological
  let rent : Row := ⟨1, "20240301", "rent", "", ""⟩
  let walk : Row := ⟨2, "20240229", "walk", "", ""⟩
  let s : Store := ⟨[rent, walk], 2⟩
  let d : Day := ⟨738945, by decide, by decide⟩
  let e : Day := ⟨738946, by decide, by decide⟩
  have hd : Day.ofText? "20240229" = some d := by decide +kernel
  have he : Day.ofText? "20240301" = some e := by decide +kernel
  obtain ⟨hdtext, hdyear⟩ := hread _ _ hd
  obtain ⟨hetext, heyear⟩ := hread _ _ he
  have hbytes := (horder d e hdyear heyear).mp (by decide)
  rw [hdtext, hetext] at hbytes
  have hsorted : [rent, walk].mergeSort Row.before = [walk, rent] := by
    have hbefore : rent.before walk = false := by decide
    simp [List.mergeSort, List.MergeSort.Internal.splitInTwo, hbefore]
  have htasks : s.list .all 2 = .ok [walk.toTask, rent.toTask] := by
    change Except.ok ((([rent, walk].mergeSort Row.before).take 2).map Row.toTask) = _
    rw [hsorted]
    rfl
  have hpairwise := hlist _ _ _ _ htasks
  rw [List.pairwise_pair] at hpairwise
  exact ⟨s, d, e, _, rfl, hd, hdtext, he, by decide, hbytes, htasks, by decide +kernel,
    hpairwise d e hdyear heyear hdtext.symm hetext.symm⟩

end Store
end Agenda
