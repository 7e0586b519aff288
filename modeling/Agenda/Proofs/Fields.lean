import Agenda.Fields
import Mathlib.Tactic

/-!
# Texts under distinct names

Where no name occurs twice, each text is found under its name, in whatever order they were given.
-/

namespace Agenda

variable {fields fields' : Fields} {name value : String}

/-- No name occurs twice. -/
def Fields.Distinct (fields : Fields) : Prop := (fields.map Prod.fst).Nodup

theorem Fields.Distinct.perm (h : fields.Distinct) (hperm : fields.Perm fields') :
    Fields.Distinct fields' :=
  (hperm.map Prod.fst).nodup_iff.mp h

theorem Fields.Distinct.reverse (h : fields.Distinct) : Fields.Distinct fields.reverse :=
  h.perm (List.reverse_perm fields).symm

theorem isGiven_eq_false_iff : isGiven fields name = false ↔ name ∉ fields.map Prod.fst := by
  rw [isGiven, textOf?, Option.isSome_eq_false_iff, Option.isNone_iff_eq_none,
    List.lookup_eq_none_iff, List.mem_map]
  constructor
  · rintro h ⟨p, hp, rfl⟩
    simpa using h p hp
  · intro h p hp
    rw [bne_iff_ne]
    intro heq
    exact h ⟨p, hp, heq.symm⟩

theorem Fields.Distinct.of_append_right {before : Fields}
    (h : Fields.Distinct (before ++ fields)) : fields.Distinct := by
  rw [Fields.Distinct, List.map_append] at h
  exact List.Nodup.of_append_right h

theorem Fields.Distinct.isGiven_eq_false {field : String × String}
    (h : Fields.Distinct (field :: fields)) : isGiven fields field.1 = false := by
  rw [isGiven_eq_false_iff]
  exact (List.nodup_cons.mp h).1

theorem textOf?_eq_some (h : fields.Distinct) (hmem : (name, value) ∈ fields) :
    textOf? fields name = some value := by
  obtain ⟨before, after, rfl⟩ := List.append_of_mem hmem
  rw [textOf?, List.lookup_eq_some_iff]
  refine ⟨before, after, rfl, ?_⟩
  intro p hp
  rw [Fields.Distinct, List.map_append, List.nodup_append] at h
  have hne := h.2.2 p.1 (List.mem_map_of_mem hp) name (by simp)
  simpa using hne.symm

theorem mem_of_textOf?_eq_some (h : textOf? fields name = some value) : (name, value) ∈ fields := by
  obtain ⟨before, after, rfl, -⟩ := List.lookup_eq_some_iff.mp h
  simp

theorem textOf_eq (h : fields.Distinct) (hmem : (name, value) ∈ fields) :
    textOf fields name = value := by
  rw [textOf, textOf?_eq_some h hmem, Option.getD_some]

end Agenda
