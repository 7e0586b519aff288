import Agenda.Proofs.Rule.Grammar

/-!
# What a rejected rule is told

An error that is found in a parameter names this parameter, and all other errors are found before
any parameter is read: a text without words, an unknown letter, a wrong number of parameters. So
only a blank text is told that it is empty.
-/

namespace Agenda

open Text

/-- The parameter in which the error is found. -/
def RuleError.parameter? : RuleError → Option Parameter
  | emptyRule | unknownLetter _ | wrongArity _ _ => none
  | outOfRange parameter _ | emptyList parameter | malformedNumber parameter _ => some parameter

/-- The parameters that may follow the letter. -/
def RuleLetter.parameters : RuleLetter → List Parameter
  | y => []
  | d => [.dayCount]
  | w => [.weekday]
  | m => [.dayOfMonth, .month]

theorem map_eq_error_iff {ε α β : Type} {f : α → β} {x : Except ε α} {e : ε} :
    x.map f = .error e ↔ x = .error e := by
  cases x <;> simp [Except.map]

variable {raw : List Char} {e : RuleError}

theorem Parameter.parameter?_of_read {parameter : Parameter}
    (h : parameter.read raw = .error e) : e.parameter? = some parameter := by
  unfold Parameter.read at h
  split at h <;> cases h <;> rfl

theorem Period.parameter?_of_read (h : Period.read raw = .error e) :
    e.parameter? = some .dayCount := by
  unfold Period.read at h
  split at h
  · rename_i hread
    cases h
    exact Parameter.parameter?_of_read hread
  · split at h <;> cases h
    rfl

namespace Vocabulary

variable {n : Nat} {v : Vocabulary n}

theorem parameter?_of_readMember (h : v.readMember raw = .error e) :
    e.parameter? = some v.parameter := by
  unfold readMember at h
  split at h
  · rename_i hread
    cases h
    exact Parameter.parameter?_of_read hread
  · split at h <;> cases h
    rfl

theorem parameter?_of_readMembers {elements : List (List Char)}
    (h : v.readMembers elements = .error e) : e.parameter? = some v.parameter := by
  induction elements with
  | nil => cases h
  | cons raw rest ih =>
    rw [readMembers] at h
    split at h
    · rename_i hread
      cases h
      exact parameter?_of_readMember hread
    · split at h
      · rename_i hrest
        cases h
        exact ih hrest
      · cases h

theorem parameter?_of_readList (h : v.readList raw = .error e) :
    e.parameter? = some v.parameter := by
  unfold readList at h
  dsimp only at h
  split at h
  · cases h
    rfl
  · split at h
    · rename_i hread
      cases h
      exact parameter?_of_readMembers hread
    · split at h <;> cases h
      rfl

end Vocabulary

namespace Rule

theorem error_of_ofWords {letter : RuleLetter} {args : List (List Char)}
    (h : ofWords letter args = .error e) :
    e = .wrongArity letter args.length ∨
      ∃ parameter ∈ letter.parameters, e.parameter? = some parameter := by
  unfold ofWords at h
  split at h
  · cases h
  · exact .inr ⟨.dayCount, by decide, Period.parameter?_of_read (map_eq_error_iff.mp h)⟩
  · exact .inr ⟨.weekday, by decide, Vocabulary.parameter?_of_readList (map_eq_error_iff.mp h)⟩
  · exact .inr ⟨.dayOfMonth, by decide, Vocabulary.parameter?_of_readList (map_eq_error_iff.mp h)⟩
  · split at h
    · rename_i hdays
      cases h
      exact .inr ⟨.dayOfMonth, by decide, Vocabulary.parameter?_of_readList hdays⟩
    · exact .inr ⟨.month, by decide, Vocabulary.parameter?_of_readList (map_eq_error_iff.mp h)⟩
  · cases h
    exact .inl rfl

theorem parse_eq_emptyRule_iff {expr : String} :
    parse expr = .error .emptyRule ↔ AllBlank expr.toList := by
  rw [← words_eq_nil_iff, parse]
  cases words expr.toList with
  | nil => simp
  | cons word args =>
    simp only [reduceCtorEq, iff_false]
    intro h
    split at h
    · cases h
    · rcases error_of_ofWords h with h | ⟨parameter, -, h⟩ <;> cases h

end Rule

end Agenda
