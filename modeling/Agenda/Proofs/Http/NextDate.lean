import Agenda.Proofs.Http.Form
import Agenda.Proofs.Http.Gate
import Agenda.Proofs.NextDate

/-!
# Asking for the next date

A request for the next date is answered with what the three texts of its query come to, whatever
their encoding and their order. No other part of the request and no password plays a part.
-/

namespace Agenda

open Text

theorem Request.split_target {request : Request} {path query : List Char}
    (htarget : request.target.toList = '/' :: path ++ '?' :: query)
    (hpath : '?' ∉ path ∧ '#' ∉ path) (hquery : '#' ∉ query) :
    request.path = String.ofList ('/' :: path) ∧ request.query = query := by
  have hresource : request.resource = '/' :: path ++ '?' :: query := by
    have hfragment : ∀ c ∈ '/' :: path ++ '?' :: query, decide (c ≠ '#') = true := by
      intro c hc
      rw [decide_eq_true_eq]
      rintro rfl
      simp [hpath.2, hquery] at hc
    have htake : request.target.toList.takeWhile (· ≠ '#') = '/' :: path ++ '?' :: query := by
      rw [htarget, List.takeWhile_eq_self_iff.mpr hfragment]
    rw [resource, htake]
    rfl
  have hne : ∀ c ∈ '/' :: path, decide (c ≠ '?') = true := by
    intro c hc
    rw [decide_eq_true_eq]
    rintro rfl
    simp [hpath.1] at hc
  constructor
  · rw [Request.path, hresource, List.takeWhile_append_of_pos hne]
    simp
  · rw [Request.query, hresource, List.dropWhile_append_of_pos hne]
    simp

/-- The answer of the endpoint to the next date, or to the reason why there is none. -/
def Response.ofNextDate : Except NextDateError String → Response
  | .ok next => .text 200 (next ++ "\n")
  | .error e => .text 400 e.message

namespace Service

variable {settings : Settings} {now : Instant} {request : Request} {date rule : String}

theorem answerNextDate_eq (reference : Day) (hdate : ¬ AllBlank date.toList)
    (hrule : ¬ AllBlank rule.toList) :
    answerNextDate reference date rule = .ofNextDate (Agenda.nextDate reference date rule) := by
  have hblank : ¬ (trim date = "" ∨ trim rule = "") := by
    rw [trim_eq_empty_iff, trim_eq_empty_iff]
    exact not_or.mpr ⟨hdate, hrule⟩
  rw [answerNextDate, if_neg hblank]
  cases Agenda.nextDate reference date rule <;> rfl

/-- The query gives each of the three texts once, in any order and in any encoding. -/
def AsksFor (query : List Char) (reference date rule : String) : Prop :=
  ∃ n d r, Form.Encodes n reference ∧ Form.Encodes d date ∧ Form.Encodes r rule ∧
    ∃ parts : List (List Char), query = ['&'].intercalate parts ∧
      parts.Perm ["now=".toList ++ n, "date=".toList ++ d, "repeat=".toList ++ r]

def askedFor (reference date rule : String) : Fields :=
  [("now", reference), ("date", date), ("repeat", rule)]

theorem AsksFor.exists_pairs {query : List Char} {raw : String}
    (h : AsksFor query raw date rule) :
    ∃ parts fields, query = ['&'].intercalate parts ∧ List.Forall₂ Form.IsPair parts fields ∧
      fields.Perm (askedFor raw date rule) := by
  obtain ⟨n, d, r, hn, hd, hr, parts, hquery, hperm⟩ := h
  have hnow : Form.IsPair ("now=".toList ++ n) ("now", raw) :=
    ⟨_, n, rfl, Form.encodes_of_isUnreserved "now" (by decide), hn⟩
  have hdate : Form.IsPair ("date=".toList ++ d) ("date", date) :=
    ⟨_, d, rfl, Form.encodes_of_isUnreserved "date" (by decide), hd⟩
  have hrule : Form.IsPair ("repeat=".toList ++ r) ("repeat", rule) :=
    ⟨_, r, rfl, Form.encodes_of_isUnreserved "repeat" (by decide), hr⟩
  obtain ⟨fields, hpairs, hfields⟩ :=
    List.perm_comp_forall₂ hperm (.cons hnow (.cons hdate (.cons hrule .nil)))
  exact ⟨parts, fields, hquery, hpairs, hfields⟩

theorem AsksFor.not_mem {query : List Char} {raw : String} (h : AsksFor query raw date rule) :
    '#' ∉ query := by
  obtain ⟨parts, fields, rfl, hpairs, -⟩ := h.exists_pairs
  intro hmem
  refine forall_mem_intercalate (p := fun c => c ≠ '#') (by decide) ?_ _ hmem rfl
  intro part hpart c hc
  obtain ⟨field, hfield⟩ := Form.exists_isPair hpairs part hpart
  exact (hfield.ne_of_mem hc).2

theorem AsksFor.read_eq_ok {raw : String} (h : AsksFor request.query raw date rule) :
    ∃ fields, Form.read ["now", "date", "repeat"] request.query = .ok fields ∧
      textOf fields "now" = raw ∧ textOf fields "date" = date ∧ textOf fields "repeat" = rule := by
  obtain ⟨parts, fields, hquery, hpairs, hperm⟩ := h.exists_pairs
  have hasked : (askedFor raw date rule).Distinct := by simp [Fields.Distinct, askedFor]
  have hdistinct : Fields.Distinct fields := hasked.perm hperm.symm
  have hnames : ∀ field ∈ fields, field.1 ∈ ["now", "date", "repeat"] := by
    intro field hfield
    have hmem := hperm.mem_iff.mp hfield
    simp only [askedFor, List.mem_cons, List.not_mem_nil, or_false] at hmem
    rcases hmem with rfl | rfl | rfl <;> simp
  have htext : ∀ {name value}, (name, value) ∈ askedFor raw date rule →
      textOf fields.reverse name = value := by
    intro name value hmem
    apply textOf_eq hdistinct.reverse
    exact List.mem_reverse.mpr (hperm.mem_iff.mpr hmem)
  refine ⟨fields.reverse, ?_, htext (by simp [askedFor]), htext (by simp [askedFor]),
    htext (by simp [askedFor])⟩
  rw [hquery]
  exact Form.read_eq_ok hpairs hnames hdistinct

theorem handle_nextDate {query : List Char} {raw : String} {reference : Day}
    (hmethod : request.method = "GET")
    (htarget : request.target.toList = "/api/nextdate?".toList ++ query)
    (hquery : AsksFor query raw date rule) (hreference : Day.ofText? raw = some reference)
    (hdate : ¬ AllBlank date.toList) (hrule : ¬ AllBlank rule.toList) :
    handle settings now request =
      .done (.ofNextDate (Agenda.nextDate reference date rule)) := by
  have htarget : request.target.toList = '/' :: "api/nextdate".toList ++ '?' :: query := htarget
  obtain ⟨hpath, rfl⟩ := Request.split_target htarget (by decide) hquery.not_mem
  obtain ⟨fields, hread, hnowText, hdateText, hruleText⟩ := hquery.read_eq_ok
  have htrim : trim raw = raw := by
    obtain ⟨rfl, -⟩ := Day.ofText?_eq_some_iff.mp hreference
    exact Day.trim_text _
  have hraw : raw ≠ "" := by
    rintro rfl
    cases hreference
  have hanswer : respond settings now .nextDate request =
      .done (.ofNextDate (Agenda.nextDate reference date rule)) := by
    rw [← answerNextDate_eq reference hdate hrule]
    simp [respond, hmethod, nextDate, withQuery, hread, hnowText, hdateText, hruleText, htrim, hraw,
      hreference]
  have hroute : Route.ofPath? request.path = some .nextDate := by rw [hpath]; rfl
  rw [handle_open hroute rfl hanswer, if_neg (by simp [hmethod])]

end Service

end Agenda
