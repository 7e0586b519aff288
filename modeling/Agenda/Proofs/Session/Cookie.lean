import Agenda.Proofs.Session.Token
import Agenda.Session.Cookie

/-!
# The token of a cookie header

The parts between the semicolons of a header are trimmed, and those with an equals sign are pairs.
The header carries the value of its first pair with the name of the token, whatever stands before
and after it.
-/

namespace Agenda
namespace Cookie

open Text

variable {header token : String} {part key value : List Char}

/-- The part is a pair, cut at its first equals sign. -/
structure IsPair (part key value : List Char) : Prop where
  eq_pair : trimmed part = key ++ '=' :: value
  not_mem : '=' ∉ key

/-- The token is the value of the first pair with its name. -/
def Carries (header token : String) : Prop :=
  ∃ before part after, header.toList.splitOn ';' = before ++ part :: after ∧
    IsPair part name.toList token.toList ∧ ∀ q ∈ before, ∀ value, ¬ IsPair q name.toList value

theorem pair?_eq_some_iff : pair? part = some (key, value) ↔ IsPair part key value := by
  rw [pair?, Token.splitAt?_eq_some_iff]
  exact ⟨fun h => ⟨h.1, h.2⟩, fun h => ⟨h.eq_pair, h.not_mem⟩⟩

def isNamed (part : List Char) : Bool := (pair? part).any fun p => p.1 == name.toList

theorem isNamed_iff : isNamed part = true ↔ ∃ value, IsPair part name.toList value := by
  rw [isNamed, Option.any_eq_true]
  constructor
  · rintro ⟨⟨key, value⟩, hpair, hkey⟩
    obtain rfl := beq_iff_eq.mp hkey
    exact ⟨value, pair?_eq_some_iff.mp hpair⟩
  · rintro ⟨value, hpair⟩
    exact ⟨_, pair?_eq_some_iff.mpr hpair, BEq.rfl⟩

theorem token?_eq (header : String) :
    token? header = (((header.toList.splitOn ';').find? isNamed).bind pair?).map fun p =>
      String.ofList p.2 := by
  rw [token?, pairs, List.find?_filterMap]
  rfl

theorem token?_eq_some_iff : token? header = some token ↔ Carries header token := by
  rw [token?_eq]
  constructor
  · intro h
    obtain ⟨⟨key, value⟩, hbind, rfl⟩ := Option.map_eq_some_iff.mp h
    obtain ⟨part, hfind, hpair⟩ := Option.bind_eq_some_iff.mp hbind
    obtain ⟨hnamed, before, after, hparts, hbefore⟩ := List.find?_eq_some_iff_append.mp hfind
    obtain ⟨value', hnamed⟩ := isNamed_iff.mp hnamed
    rw [pair?_eq_some_iff.mpr hnamed] at hpair
    cases hpair
    refine ⟨before, part, after, hparts, ?_, ?_⟩
    · rwa [String.toList_ofList]
    · intro q hq value hpair
      have hnot := hbefore q hq
      rw [isNamed_iff.mpr ⟨value, hpair⟩] at hnot
      cases hnot
  · rintro ⟨before, part, after, hparts, hpair, hbefore⟩
    have hfind : (header.toList.splitOn ';').find? isNamed = some part := by
      refine List.find?_eq_some_iff_append.mpr
        ⟨isNamed_iff.mpr ⟨_, hpair⟩, before, after, hparts, ?_⟩
      intro q hq
      rw [Bool.not_eq_true', Bool.eq_false_iff, ne_eq, isNamed_iff, not_exists]
      exact hbefore q hq
    rw [hfind, Option.bind_some, pair?_eq_some_iff.mpr hpair, Option.map_some, String.ofList_toList]

def tokenPair (token : String) : List Char := name.toList ++ '=' :: token.toList

section Issued

variable (password : String) (issued : Instant) {left right : List Char}
  {before after : List (List Char)}

theorem not_blank_tokenPair :
    ∀ c ∈ tokenPair (Token.issue password issued), isBlank c = false ∧ c ≠ ';' := by
  have hname : (name.toList.all fun c => !isBlank c && c != ';') = true := by decide
  rw [tokenPair, List.forall_mem_append, List.forall_mem_cons]
  refine ⟨fun c hc => by simpa using List.all_eq_true.mp hname c hc, by decide, ?_⟩
  intro c hc
  obtain ⟨hlow, hhigh, hsemicolon⟩ := Token.issue_chars password issued c hc
  exact ⟨isBlank_of_printable hlow hhigh, hsemicolon⟩

theorem isPair_tokenPair (hleft : AllBlank left) (hright : AllBlank right) :
    IsPair (left ++ tokenPair (Token.issue password issued) ++ right) name.toList
      (Token.issue password issued).toList where
  eq_pair := by
    have htrimmed : IsTrimmed (tokenPair (Token.issue password issued)) :=
      isTrimmed_of_not_blank fun c hc => (not_blank_tokenPair password issued c hc).1
    exact htrimmed.trimmed_append (by simp [tokenPair]) hleft hright
  not_mem := by decide

/-- A header carries an issued token behind parts that do not have its name and before any others,
with any blanks around it. -/
theorem carries_issue (hbefore : ∀ q ∈ before, ';' ∉ q ∧ ∀ value, ¬ IsPair q name.toList value)
    (hafter : ∀ q ∈ after, ';' ∉ q) (hleft : AllBlank left) (hright : AllBlank right) :
    Carries (String.ofList ([';'].intercalate
      (before ++ (left ++ tokenPair (Token.issue password issued) ++ right) :: after)))
      (Token.issue password issued) := by
  have hblank : ∀ {gap : List Char}, AllBlank gap → ';' ∉ gap := by
    intro gap hgap hmem
    cases hgap ';' hmem
  have hpart : ';' ∉ left ++ tokenPair (Token.issue password issued) ++ right := by
    rw [List.mem_append, List.mem_append]
    rintro ((hmem | hmem) | hmem)
    · exact hblank hleft hmem
    · exact (not_blank_tokenPair password issued _ hmem).2 rfl
    · exact hblank hright hmem
  have hparts : ∀ q ∈ before ++ (left ++ tokenPair (Token.issue password issued) ++ right) :: after,
      ';' ∉ q := by
    rw [List.forall_mem_append, List.forall_mem_cons]
    exact ⟨fun q hq => (hbefore q hq).1, hpart, hafter⟩
  refine ⟨before, _, after, ?_, isPair_tokenPair password issued hleft hright,
    fun q hq => (hbefore q hq).2⟩
  rw [String.toList_ofList, List.splitOn_intercalate _ hparts (by simp)]

end Issued

end Cookie
end Agenda
