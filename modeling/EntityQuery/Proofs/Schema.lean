import EntityQuery.Proofs.Outcome
import EntityQuery.Schema.Basic

/-!
# Entities and attributes by name

A schema that was made of entities keeps each under its own name, so what is found under a name is
the entity of that name.
-/

namespace EntityQuery.Schema

variable {s t : Schema} {name : String}

theorem entity_eq_ok_iff {e : Entity} : s.entity name = .ok e ↔ s.entity? name = some e := by
  rw [entity]
  cases s.entity? name <;> simp

theorem attributeOf_eq_ok_iff {entity : String} {a : Attribute} :
    s.attributeOf entity name = .ok a ↔
      ∃ e, s.entity? entity = some e ∧ e.attribute? name = some a := by
  rw [attributeOf, Outcome.bind_ok_iff]
  refine exists_congr fun e => and_congr entity_eq_ok_iff ?_
  cases e.attribute? name <;> simp

theorem entity_ok_iff : (∃ e, s.entity name = .ok e) ↔ (s.entity? name).isSome = true := by
  simp only [entity_eq_ok_iff, Option.isSome_iff_exists]

theorem attributeOf_name {entity : String} {a : Attribute}
    (h : s.attributeOf entity name = .ok a) : a.name = name := by
  obtain ⟨e, -, found⟩ := attributeOf_eq_ok_iff.mp h
  simpa using List.find?_some found

/-- Every entity has the name under which it is kept. -/
def Named (s : Schema) : Prop := ∀ name e, s.entity? name = some e → e.name = name

theorem named_add {e : Entity} (h : s.Named) (added : s.add e = .ok t) : t.Named := by
  rw [add] at added
  split at added
  · cases added
  split at added
  · cases added
  cases added
  intro name other found
  rcases Catalog.eq_or_of_find?_insert found with ⟨rfl, rfl⟩ | old
  · rfl
  · exact h name other old

theorem named_ofEntities {entities : List Entity} (h : ofEntities entities = .ok s) : s.Named :=
  Outcome.foldlM_keeps (fun _ _ _ => named_add) (fun _ _ found => by cases found) h

end EntityQuery.Schema
