import Agenda.Proofs.Json.Record
import Agenda.Task.Record

/-!
# A task is read back from its JSON

The texts of a task may be given in any order, among members with other names, and those that are
empty may be left out. Both written forms of a task, with its texts as they are declared and with
the keys in alphabetical order, are read as the task.
-/

namespace Agenda
namespace Task

open Json

def fields (task : Task) : Fields :=
  [("id", task.id), ("date", task.date), ("title", task.title), ("comment", task.comment),
    ("repeat", task.repeatRule)]

/-- The texts give the task when they are its own and only empty ones are left out. -/
structure IsGivenBy (task : Task) (fields : Fields) : Prop where
  distinct : fields.Distinct
  subset : ∀ field ∈ fields, field ∈ task.fields
  mem_of_ne_empty : ∀ field ∈ task.fields, field.2 ≠ "" → field ∈ fields

variable {task : Task} {fields fields' : Fields} {name value : String}

theorem distinct_fields (task : Task) : task.fields.Distinct := by
  simp [Fields.Distinct, Task.fields]

theorem IsGivenBy.perm (h : task.IsGivenBy fields) (hperm : fields.Perm fields') :
    task.IsGivenBy fields' where
  distinct := h.distinct.perm hperm
  subset field hfield := h.subset field (hperm.mem_iff.mpr hfield)
  mem_of_ne_empty field hfield hne := hperm.mem_iff.mp (h.mem_of_ne_empty field hfield hne)

theorem IsGivenBy.textOf_eq (h : task.IsGivenBy fields) (hfield : (name, value) ∈ task.fields) :
    textOf fields name = value := by
  cases hgiven : textOf? fields name with
  | none =>
    have hempty : value = "" := by
      by_contra hne
      rw [textOf?_eq_some h.distinct (h.mem_of_ne_empty _ hfield hne)] at hgiven
      cases hgiven
    rw [textOf, hgiven, hempty, Option.getD_none]
  | some other =>
    have hother := textOf?_eq_some task.distinct_fields
      (h.subset _ (mem_of_textOf?_eq_some hgiven))
    rw [textOf?_eq_some task.distinct_fields hfield] at hother
    rw [textOf, hgiven, ← hother, Option.getD_some]

theorem IsGivenBy.ofFields_eq (h : task.IsGivenBy fields) : ofFields fields = task := by
  have hfields : ∀ field ∈ task.fields, textOf fields field.1 = field.2 :=
    fun field hfield => h.textOf_eq hfield
  simp only [Task.fields, List.forall_mem_cons] at hfields
  obtain ⟨hid, hdate, htitle, hcomment, hrule, -⟩ := hfields
  simp only [ofFields, hid, hdate, htitle, hcomment, hrule]

theorem ofJson?_eq_some {s : String} (h : IsRecord fieldNames s.toList fields)
    (hgiven : task.IsGivenBy fields) : ofJson? s = some task := by
  have hreverse := hgiven.perm (List.reverse_perm fields).symm
  rw [ofJson?, h.readRecord_eq hgiven.distinct, Option.map_some, hreverse.ofFields_eq]

theorem isGivenBy_fields (task : Task) : task.IsGivenBy task.fields :=
  ⟨task.distinct_fields, fun _ h => h, fun _ h _ => h⟩

def sortedFields (task : Task) : Fields :=
  [("comment", task.comment), ("date", task.date), ("id", task.id), ("repeat", task.repeatRule),
    ("title", task.title)]

theorem isGivenBy_sortedFields (task : Task) : task.IsGivenBy task.sortedFields where
  distinct := by simp [Fields.Distinct, sortedFields]
  subset := by simp [sortedFields, Task.fields]
  mem_of_ne_empty := by simp [sortedFields, Task.fields]

theorem toJson_eq (task : Task) : task.toJson = .object (textMembers task.fields) := rfl

theorem toSortedJson_eq (task : Task) :
    task.toSortedJson = .object (textMembers task.sortedFields) :=
  rfl

theorem IsGivenBy.ofJson?_write (h : task.IsGivenBy fields) :
    ofJson? (Value.object (textMembers fields)).write = some task := by
  have hnames : ∀ field ∈ fields, field.1 ∈ fieldNames := by
    intro field hfield
    exact List.mem_map_of_mem (f := Prod.fst) (h.subset field hfield)
  exact ofJson?_eq_some ((isObject_write fields).isRecord hnames) h

theorem ofJson?_toJson (task : Task) : ofJson? task.toJson.write = some task := by
  rw [toJson_eq]
  exact task.isGivenBy_fields.ofJson?_write

theorem ofJson?_toSortedJson (task : Task) : ofJson? task.toSortedJson.write = some task := by
  rw [toSortedJson_eq]
  exact task.isGivenBy_sortedFields.ofJson?_write

end Task
end Agenda
