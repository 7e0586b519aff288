import Agenda.Json.Record
import Agenda.Proofs.Fields
import Agenda.Proofs.Json.Skip

/-!
# Objects of texts

An object of texts is a list of members, keys and values in any spelling, with space between all
tokens. It is read as its members when their keys are distinct and asked for. What is written for
such an object is one of its forms.
-/

namespace Agenda
namespace Json

/-- A text between its quotes, behind space. -/
def IsQuoted (s : List Char) (t : String) : Prop :=
  ∃ gap inner, AllSpace gap ∧ Spells inner t.toList ∧ s = gap ++ '"' :: inner ++ ['"']

/-- A key, a colon and a text, with space around them. -/
def IsMember (s : List Char) (field : String × String) : Prop :=
  ∃ key gap value after, IsQuoted key field.1 ∧ AllSpace gap ∧ IsQuoted value field.2 ∧
    AllSpace after ∧ s = key ++ gap ++ ':' :: value ++ after

/-- Members with commas between them, up to the bracket that closes the object. -/
inductive AreMembers : List Char → Fields → Prop
  | last {s : List Char} {field : String × String} (h : IsMember s field) :
      AreMembers (s ++ ['\x7d']) [field]
  | cons {s rest : List Char} {field : String × String} {fields : Fields} (h : IsMember s field)
      (hrest : AreMembers rest fields) : AreMembers (s ++ ',' :: rest) (field :: fields)

/-- An object whose members are these texts, with space around it. -/
inductive IsObject : List Char → Fields → Prop
  | empty {before gap after : List Char} (hbefore : AllSpace before) (hgap : AllSpace gap)
      (hafter : AllSpace after) : IsObject (before ++ '\x7b' :: gap ++ '\x7d' :: after) []
  | members {before inner after : List Char} {fields : Fields} (hbefore : AllSpace before)
      (h : AreMembers inner fields) (hafter : AllSpace after) :
      IsObject (before ++ '\x7b' :: inner ++ after) fields

/-- A member of a record, with what it gives: a text under one of the names, and else nothing. -/
inductive IsEntry (names : List String) : List Char → Fields → Prop
  | asked {s : List Char} {field : String × String} (h : IsMember s field)
      (hname : field.1 ∈ names) : IsEntry names s [field]
  | other {key gap before value after : List Char} {name : String} (hkey : IsQuoted key name)
      (hname : name ∉ names) (hgap : AllSpace gap) (hbefore : AllSpace before) (h : IsValue value)
      (hafter : AllSpace after) :
      IsEntry names (key ++ gap ++ ':' :: before ++ value ++ after) []

/-- Members with commas between them, up to the bracket that closes the object. -/
inductive AreEntries (names : List String) : List Char → Fields → Prop
  | last {s : List Char} {fields : Fields} (h : IsEntry names s fields) :
      AreEntries names (s ++ ['\x7d']) fields
  | cons {s rest : List Char} {fields fields' : Fields} (h : IsEntry names s fields)
      (hrest : AreEntries names rest fields') :
      AreEntries names (s ++ ',' :: rest) (fields ++ fields')

/-- An object that gives these texts under the names, with space around it. -/
inductive IsRecord (names : List String) : List Char → Fields → Prop
  | empty {before gap after : List Char} (hbefore : AllSpace before) (hgap : AllSpace gap)
      (hafter : AllSpace after) : IsRecord names (before ++ '\x7b' :: gap ++ '\x7d' :: after) []
  | entries {before inner after : List Char} {fields : Fields} (hbefore : AllSpace before)
      (h : AreEntries names inner fields) (hafter : AllSpace after) :
      IsRecord names (before ++ '\x7b' :: inner ++ after) fields

variable {s rest : List Char} {t : String} {field : String × String} {fields read : Fields}
  {names : List String}

theorem AreMembers.areEntries (h : AreMembers s fields)
    (hnames : ∀ field ∈ fields, field.1 ∈ names) : AreEntries names s fields := by
  induction h with
  | last h => exact .last (.asked h (hnames _ List.mem_cons_self))
  | cons h hrest ih =>
    obtain ⟨hname, hnames⟩ := List.forall_mem_cons.mp hnames
    exact .cons (.asked h hname) (ih hnames)

theorem IsObject.isRecord (h : IsObject s fields) (hnames : ∀ field ∈ fields, field.1 ∈ names) :
    IsRecord names s fields := by
  cases h with
  | empty hbefore hgap hafter => exact .empty hbefore hgap hafter
  | members hbefore h hafter => exact .entries hbefore (h.areEntries hnames) hafter

theorem IsQuoted.readQuoted_eq (h : IsQuoted s t) (rest : List Char) :
    readQuoted (s ++ rest) = some (t, rest) := by
  obtain ⟨gap, inner, hgap, hinner, rfl⟩ := h
  have hskip : skipSpace (gap ++ '"' :: inner ++ ['"'] ++ rest) =
      '"' :: (inner ++ '"' :: rest) := by
    simp only [List.append_assoc, List.cons_append, List.nil_append]
    rw [skipSpace_append_cons hgap rfl]
  simp only [readQuoted, hskip, hinner.readText_eq, List.reverse_nil, List.nil_append,
    String.ofList_toList]

theorem IsQuoted.readKey_eq {gap : List Char} (h : IsQuoted s t) (hgap : AllSpace gap)
    (rest : List Char) : readKey (s ++ (gap ++ ':' :: rest)) = some (t, rest) := by
  have hcolon : skipSpace (gap ++ ':' :: rest) = ':' :: rest := skipSpace_append_cons hgap rfl rest
  simp only [readKey, h.readQuoted_eq, hcolon]

theorem IsQuoted.readMember_eq {key : String} (h : IsQuoted s t) (hkey : key ∈ names)
    (hnew : isGiven read key = false) (rest : List Char) :
    readMember names read key (s ++ rest) = some ((key, t) :: read, rest) := by
  rw [readMember, if_pos hkey, hnew, if_neg Bool.false_ne_true, h.readQuoted_eq]

theorem readMembers_eq {key : String} {value after : List Char} {c : Char}
    (hkey : readKey s = some (key, value))
    (hmember : readMember names read key value = some (fields, after ++ c :: rest))
    (hafter : AllSpace after) (hc : c = ',' ∨ c = '\x7d') :
    readMembers names read s =
      if c = ',' then readMembers names fields rest else some (fields, rest) := by
  have hspace : isSpace c = false := by rcases hc with rfl | rfl <;> rfl
  have hskip : skipSpace (after ++ c :: rest) = c :: rest :=
    skipSpace_append_cons hafter hspace rest
  rw [readMembers]
  split
  · rename_i hnone
    cases hkey.symm.trans hnone
  · rename_i key value' hsome
    cases hkey.symm.trans hsome
    split
    · rename_i hnone
      cases hmember.symm.trans hnone
    · rename_i fields rest' hsome
      cases hmember.symm.trans hsome
      split
      · rename_i hcomma
        cases hskip.symm.trans hcomma
        rfl
      · rename_i hclose
        cases hskip.symm.trans hclose
        rfl
      · rename_i hcomma hclose
        rcases hc with rfl | rfl
        · exact absurd hskip (hcomma _)
        · exact absurd hskip (hclose _)

theorem IsEntry.readMembers_eq (h : IsEntry names s fields)
    (hdistinct : Fields.Distinct (fields.reverse ++ read)) {c : Char} (hc : c = ',' ∨ c = '\x7d')
    (rest : List Char) :
    readMembers names read (s ++ c :: rest) =
      if c = ',' then readMembers names (fields.reverse ++ read) rest
      else some (fields.reverse ++ read, rest) := by
  cases h with
  | asked h hname =>
    obtain ⟨key, gap, value, after, hkey, hgap, hvalue, hafter, rfl⟩ := h
    have hread := hkey.readKey_eq hgap (value ++ (after ++ c :: rest))
    have hmember := hvalue.readMember_eq hname hdistinct.isGiven_eq_false (after ++ c :: rest)
    simp only [List.append_assoc, List.cons_append]
    exact Json.readMembers_eq hread hmember hafter hc
  | @other key gap before value after name hkey hname hgap hbefore h hafter =>
    have hread := hkey.readKey_eq hgap (before ++ (value ++ (after ++ c :: rest)))
    have hends : EndsValue (after ++ c :: rest) :=
      endsValue_append hafter (hc.imp_right .inr) rest
    have hmember : readMember names read name (before ++ (value ++ (after ++ c :: rest))) =
        some (read, after ++ c :: rest) := by
      rw [readMember, if_neg hname, h.skipValue_eq hbefore hends]
    simp only [List.append_assoc, List.cons_append]
    exact Json.readMembers_eq hread hmember hafter hc

theorem AreEntries.readMembers_eq (h : AreEntries names s fields)
    (hdistinct : Fields.Distinct (fields.reverse ++ read)) (rest : List Char) :
    readMembers names read (s ++ rest) = some (fields.reverse ++ read, rest) := by
  induction h generalizing read with
  | last h =>
    rw [List.append_assoc, List.singleton_append, h.readMembers_eq hdistinct (.inr rfl)]
    rfl
  | cons h hrest ih =>
    rw [List.reverse_append, List.append_assoc] at hdistinct
    rw [List.append_assoc, List.cons_append,
      h.readMembers_eq hdistinct.of_append_right (.inl rfl), if_pos rfl, ih hdistinct,
      List.reverse_append, List.append_assoc]

theorem IsQuoted.exists_skipSpace (h : IsQuoted s t) :
    ∃ s', IsQuoted ('"' :: s') t ∧ ∀ rest, skipSpace (s ++ rest) = '"' :: (s' ++ rest) := by
  obtain ⟨gap, inner, hgap, hinner, rfl⟩ := h
  refine ⟨inner ++ ['"'], ⟨[], inner, allSpace_nil, hinner, rfl⟩, fun rest => ?_⟩
  simp only [List.append_assoc, List.cons_append]
  rw [skipSpace_append_cons hgap rfl]

theorem IsEntry.exists_skipSpace (h : IsEntry names s fields) :
    ∃ s', IsEntry names ('"' :: s') fields ∧
      ∀ rest, skipSpace (s ++ rest) = '"' :: (s' ++ rest) := by
  cases h with
  | asked h hname =>
    obtain ⟨key, gap, value, after, hkey, hgap, hvalue, hafter, rfl⟩ := h
    obtain ⟨key', hkey', hskip⟩ := hkey.exists_skipSpace
    refine ⟨key' ++ gap ++ ':' :: value ++ after, .asked ?_ hname, fun rest => ?_⟩
    · exact ⟨'"' :: key', gap, value, after, hkey', hgap, hvalue, hafter, rfl⟩
    · simp only [List.append_assoc, hskip]
  | @other key gap before value after name hkey hname hgap hbefore h hafter =>
    obtain ⟨key', hkey', hskip⟩ := hkey.exists_skipSpace
    refine ⟨key' ++ gap ++ ':' :: before ++ value ++ after, ?_, fun rest => ?_⟩
    · exact .other hkey' hname hgap hbefore h hafter
    · simp only [List.append_assoc, hskip]

theorem AreEntries.exists_skipSpace (h : AreEntries names s fields) :
    ∃ s', AreEntries names ('"' :: s') fields ∧
      ∀ rest, skipSpace (s ++ rest) = '"' :: (s' ++ rest) := by
  cases h with
  | last h =>
    obtain ⟨s', h', hskip⟩ := h.exists_skipSpace
    refine ⟨s' ++ ['\x7d'], .last h', ?_⟩
    simp [hskip]
  | @cons s rest fields fields' h hrest =>
    obtain ⟨s', h', hskip⟩ := h.exists_skipSpace
    refine ⟨s' ++ ',' :: rest, .cons h' hrest, ?_⟩
    simp [hskip]

theorem IsRecord.exists_readBracketed (h : IsRecord names s fields) (hdistinct : fields.Distinct) :
    ∃ after, AllSpace after ∧ readBracketed names s = some (fields.reverse, after) := by
  cases h with
  | @empty before gap after hbefore hgap hafter =>
    refine ⟨after, hafter, ?_⟩
    have hopen : skipSpace (before ++ '\x7b' :: gap ++ '\x7d' :: after) =
        '\x7b' :: (gap ++ '\x7d' :: after) := by
      rw [List.append_assoc, List.cons_append, skipSpace_append_cons hbefore rfl]
    have hclose : skipSpace (gap ++ '\x7d' :: after) = '\x7d' :: after :=
      skipSpace_append_cons hgap rfl after
    simp only [readBracketed, hopen, hclose, List.reverse_nil]
  | @entries before inner after fields hbefore h hafter =>
    obtain ⟨inner', h', hskip⟩ := h.exists_skipSpace
    refine ⟨after, hafter, ?_⟩
    have hopen :
        skipSpace (before ++ '\x7b' :: inner ++ after) = '\x7b' :: (inner ++ after) := by
      rw [List.append_assoc, List.cons_append, skipSpace_append_cons hbefore rfl]
    have hreverse : Fields.Distinct (fields.reverse ++ []) := by
      rw [List.append_nil]
      exact hdistinct.reverse
    have hread := h'.readMembers_eq hreverse after
    rw [List.append_nil, List.cons_append] at hread
    simp only [readBracketed, hopen, hskip]
    exact hread

theorem IsRecord.readRecord_eq {s : String} (h : IsRecord names s.toList fields)
    (hdistinct : fields.Distinct) : readRecord names s = some fields.reverse := by
  obtain ⟨after, hafter, hread⟩ := h.exists_readBracketed hdistinct
  simp [readRecord, hread, skipSpace_eq_nil hafter]

theorem IsObject.readRecord_eq {s : String} (h : IsObject s.toList fields)
    (hnames : ∀ field ∈ fields, field.1 ∈ names) (hdistinct : fields.Distinct) :
    readRecord names s = some fields.reverse :=
  (h.isRecord hnames).readRecord_eq hdistinct

theorem IsObject.length_lt (h : IsObject s [field]) : field.2.length < s.length := by
  cases h with
  | members hbefore h hafter =>
    cases h with
    | last hmember =>
      obtain ⟨key, gap, value, after, -, -, ⟨before, inner, -, hinner, rfl⟩, -, rfl⟩ := hmember
      have hle := hinner.length_le
      rw [← String.length_toList]
      simp only [List.length_append, List.length_cons]
      omega
    | cons hmember hrest => cases hrest

theorem isQuoted_quoted (t : String) : IsQuoted (quoted t) t :=
  ⟨[], _, allSpace_nil, spells_flatMap_escaped t.toList, rfl⟩

theorem isMember_written (field : String × String) :
    IsMember (quoted field.1 ++ ':' :: quoted field.2) field :=
  ⟨_, [], _, [], isQuoted_quoted field.1, allSpace_nil, isQuoted_quoted field.2, allSpace_nil,
    by simp⟩

def textMembers (fields : Fields) : List (String × Value) :=
  fields.map fun field => (field.1, .text field.2)

theorem areMembers_memberChars (field : String × String) (fields : Fields) :
    AreMembers (Value.memberChars (textMembers (field :: fields)) ++ ['\x7d'])
      (field :: fields) := by
  induction fields generalizing field with
  | nil => exact .last (isMember_written field)
  | cons next fields ih =>
    have hcons := AreMembers.cons (isMember_written field) (ih next)
    simpa [textMembers, Value.memberChars, Value.chars] using hcons

theorem isObject_write (fields : Fields) :
    IsObject (Value.object (textMembers fields)).write.toList fields := by
  rw [Value.write, String.toList_ofList, Value.chars]
  cases fields with
  | nil => exact .empty allSpace_nil allSpace_nil allSpace_nil
  | cons field fields =>
    have h := IsObject.members allSpace_nil (areMembers_memberChars field fields) allSpace_nil
    simpa using h

theorem AreMembers.areItems (h : AreMembers s fields) : AreItems .object s := by
  induction h with
  | last h =>
    obtain ⟨_, gap, _, after, ⟨before, key, hbefore, hkey, rfl⟩, hgap,
      ⟨space, inner, hspace, hinner, rfl⟩, hafter, rfl⟩ := h
    have hitems := AreItems.last (.object hbefore hkey.isInner hgap) hspace
      (.atom (.text hinner.isInner)) hafter
    simpa [Frame.closing] using hitems
  | cons h hrest ih =>
    obtain ⟨_, gap, _, after, ⟨before, key, hbefore, hkey, rfl⟩, hgap,
      ⟨space, inner, hspace, hinner, rfl⟩, hafter, rfl⟩ := h
    have hitems := AreItems.cons (.object hbefore hkey.isInner hgap) hspace
      (.atom (.text hinner.isInner)) hafter ih
    simpa using hitems

theorem isValue_object (fields : Fields) : IsValue (Value.object (textMembers fields)).chars := by
  cases fields with
  | nil => exact .empty .object allSpace_nil
  | cons field fields =>
    have h := IsValue.items (areMembers_memberChars field fields).areItems
    simpa [Value.chars, Frame.opening] using h

theorem elementChars_eq (values : List Value) :
    Value.elementChars values = [','].intercalate (values.map Value.chars) := by
  induction values with
  | nil => rfl
  | cons v rest ih =>
    cases rest with
    | nil => simp [Value.elementChars]
    | cons w rest =>
      rw [Value.elementChars, ih]
      · simp [List.intercalate]
      · simp

end Json
end Agenda
