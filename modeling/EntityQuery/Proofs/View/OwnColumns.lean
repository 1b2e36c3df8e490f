import EntityQuery.Proofs.View.StoredRow

/-!
# Assignments and columns

The statement of an updater is written with one assignment for each writable attribute. Whether two
of them, or one and the id, lead to the same column is not checked when a view type is built.
`assigns_once_iff` says that columns are assigned once exactly if the attributes have columns
of their own, and that a change is then never undone by another attribute.
-/

namespace EntityQuery
namespace Updater

section Assigning
variable {v : ViewType} (hv : v.WellFormed) {u : Updater} (built : ofView v = .ok u)
include hv built

/-- The id is found by its path. -/
theorem id_path : ∃ a, v.id? = some a ∧ a.path? = some u.id.path := by
  obtain ⟨a, hid, hsome, rfl⟩ := ofView_ok hv built
  obtain ⟨path, hpath⟩ := Option.isSome_iff_exists.mp hsome
  exact ⟨a, hid, by simp [Assignment.ofAttribute, hpath]⟩

/-- Each writable attribute is assigned to its path under its name. -/
theorem assigns_each : List.Forall₂ (fun a (x : Assignment) =>
    a.path? = some x.path ∧ x.parameter = a.name) v.writable u.assignments := by
  rw [assignments_eq hv built, List.forall₂_map_right_iff, List.forall₂_same]
  intro a ha
  obtain ⟨path, hpath⟩ := ViewType.exists_path hv ha
  exact ⟨by simp [Assignment.ofAttribute, hpath], rfl⟩

/-- The text has the assignments in the order of the attributes, each of a path to the parameter
that is called as its attribute, and the row is that of the id. -/
theorem statement_eq {a : ViewAttribute} (hid : v.id? = some a) :
    u.statement = s!"UPDATE {v.entity} SET " ++
      String.intercalate ", " (List.zipWith (fun b path => s!"{path} = :{b.name}") v.writable
        (u.assignments.map (·.path))) ++
      s!" WHERE {u.id.path} = :{a.name}" := by
  obtain ⟨b, same, -, rfl⟩ := ofView_ok hv built
  obtain rfl := Option.some.inj (same.symm.trans hid)
  rw [List.map_map, List.zipWith_map_right, List.zipWith_self, statement, List.map_map]
  rfl

theorem columns_path : v.columns.map (·.path?) =
    (u.id.path :: u.assignments.map (·.path)).map some := by
  obtain ⟨a, hid, hpath⟩ := id_path hv built
  have each := assigns_each hv built
  have writable : v.writable.map (·.path?) = u.assignments.map (some ·.path) := by
    generalize v.writable = l at each
    generalize u.assignments = as at each
    induction each with
    | nil => rfl
    | cons h _ ih => rw [List.map_cons, List.map_cons, ih, h.1]
  rw [ViewType.columns, hid, List.map_append, writable, List.map_cons, List.map_map]
  exact congrArg (· :: _) hpath

theorem assigns_once_of_columns : (u.assignments.map (·.path)).Nodup ∧
    u.id.path ∉ u.assignments.map (·.path) ↔ v.HasOwnColumns := by
  rw [ViewType.HasOwnColumns, columns_path hv built,
    List.nodup_map_iff (fun _ _ => Option.some.inj), List.nodup_cons, and_comm]

/-- The statement does not touch the column of the id. -/
theorem write_id (own : v.HasOwnColumns) (bindings : List (String × Value)) (row : Row) :
    u.write bindings row u.id.path = row u.id.path := by
  obtain ⟨id, hid, hpath⟩ := id_path hv built
  refine write_of_forall_ne hv built ?_ bindings row
  intro a ha heq
  have same := ViewType.eq_of_path?_eq own (ViewType.mem_columns_of_writable ha)
    (ViewType.mem_columns.mpr (Or.inl hid)) (heq.trans hpath.symm)
  have readOnly := (ViewType.mem_of_id? hid).2
  rw [← same, (List.mem_filter.mp ha).2] at readOnly
  cases readOnly

end Assigning
end Updater

namespace Lifetime

/-- The text of a statement assigns each writable attribute once, under its name, and finds the row
by the path of the id. It assigns each path once, and not that of the id, exactly if these
attributes have columns of their own. Then each column gets what the getter of its attribute gives,
at any time of an instance. -/
theorem assigns_once_iff {v : ViewType} (managed : v.Managed) {u : Updater}
    (built : Updater.ofView v = .ok u) :
    (∃ id, v.id? = some id ∧ id.path? = some u.id.path ∧
      u.statement = s!"UPDATE {v.entity} SET " ++
        String.intercalate ", " (List.zipWith (fun a path => s!"{path} = :{a.name}") v.writable
          (u.assignments.map (·.path))) ++
        s!" WHERE {u.id.path} = :{id.name}") ∧
    List.Forall₂ (fun a (x : Assignment) => a.path? = some x.path ∧ x.parameter = a.name)
      v.writable u.assignments ∧
    ((u.assignments.map (·.path)).Nodup ∧ u.id.path ∉ u.assignments.map (·.path) ↔
      v.HasOwnColumns) ∧
    (v.HasOwnColumns → ∀ values i, ViewInstance.Made v values i → ∀ events row,
      let w := (start i).run events
      let after := u.write (u.bindings w.current.snapshot) row
      after u.id.path = row u.id.path ∧
        ∀ a ∈ v.writable, ∀ path, a.path? = some path →
          w.current.get a.name = .ok (after path)) := by
  have hv := managed.wellFormed
  obtain ⟨id, hid, hpath⟩ := Updater.id_path hv built
  refine ⟨⟨id, hid, hpath, Updater.statement_eq hv built hid⟩, Updater.assigns_each hv built,
    Updater.assigns_once_of_columns hv built, ?_⟩
  intro own values i made events row w after
  have fits : w.Fits v := fits_run hv made.fits events
  refine ⟨Updater.write_id hv built own _ row, ?_⟩
  intro a ha path hpath
  rw [ViewInstance.get_eq_current hv fits.current (List.mem_filter.mp ha).1]
  exact congrArg Except.ok (Updater.write_of_writable hv built own fits.current ha hpath row).symm

/-- The name is set and taken back, then the age is set. -/
theorem assigns_once_document :
    let w := (start .document).run
      [.set "name" (.text "N"), .snapshot, .complete 0 .committed, .set "age" (.text "X")]
    let after := Updater.ofDocuments.write (Updater.ofDocuments.bindings w.current.snapshot)
      Session.documentRow
    ViewType.ofDocuments.HasOwnColumns ∧
      Updater.ofDocuments.statement =
        "UPDATE Document SET name = :name, age = :age WHERE id = :id" ∧
      (Updater.ofDocuments.assignments.map (·.path)).Nodup ∧
      "id" ∉ Updater.ofDocuments.assignments.map (·.path) ∧ after "id" = .int 1 ∧
      w.current.get "name" = .ok (after "name") ∧ after "name" = .text "N" ∧
      after "age" = .text "X" := by
  intro w after
  have own : ViewType.ofDocuments.HasOwnColumns := by
    rw [ViewType.HasOwnColumns]
    decide
  obtain ⟨⟨id, hid, -, written⟩, -, once, kept⟩ :=
    assigns_once_iff ViewType.ofDocuments_managed Updater.ofDocuments_built
  obtain rfl := Option.some.inj hid
  obtain ⟨same, columns⟩ := kept own _ _ ViewInstance.made_document
    [.set "name" (.text "N"), .snapshot, .complete 0 .committed, .set "age" (.text "X")]
    Session.documentRow
  obtain ⟨nodup, notId⟩ := once.mpr own
  have name := columns _ (List.mem_of_getElem? (i := 0) rfl) "name" rfl
  exact ⟨own, written, nodup, notId, same, name, rfl, rfl⟩

end Lifetime

namespace ViewType

/-- A view of documents with two attributes for the name and two for the id. -/
def ofTitles : ViewType :=
  ⟨"TitleView", "Document",
    [⟨"id", 0, .path "id", true, false, none, false, false, false, none⟩,
     ⟨"name", 1, .path "name", false, true, none, false, false, false, none⟩,
     ⟨"title", 2, .path "name", false, true, none, false, false, false, none⟩,
     ⟨"key", 3, .path "id", false, true, none, false, false, false, none⟩]⟩

theorem ofTitles_managed : ofTitles.Managed :=
  ⟨⟨[("Document", ⟨"Document", "document", "id", [.basic "id", .basic "name"]⟩)]⟩, [],
    [⟨"TitleView", "Document",
      [⟨"id", .path "id", true, false, none, false, false⟩,
       ⟨"name", .path "name", false, true, none, false, false⟩,
       ⟨"title", .path "name", false, true, none, false, false⟩,
       ⟨"key", .path "id", false, true, none, false, false⟩]⟩],
    ⟨[("TitleView", ofTitles)]⟩, "TitleView", rfl, rfl⟩

end ViewType

/-- What is checked of a view type does not keep its columns apart: a name that was set is
overwritten by the unchanged title, and the id is assigned. -/
theorem Updater.assigns_twice :
    ∃ u, ofView .ofTitles = .ok u ∧ ViewType.ofTitles.Managed ∧
      u.statement = "UPDATE Document SET name = :name, name = :title, id = :key WHERE id = :id" ∧
      ¬ (u.assignments.map (·.path)).Nodup ∧ u.id.path ∈ u.assignments.map (·.path) ∧
      ∃ i changed, ViewInstance.ofValues .ofTitles [.int 1, .text "A", .text "A", .int 1] = .ok i ∧
        i.set "name" (.text "N") = .ok changed ∧ changed.get "name" = .ok (.text "N") ∧
        u.write (u.bindings changed.snapshot) (fun _ => .null) "name" = .text "A" := by
  refine ⟨⟨.ofTitles, ⟨"id", "id", 0⟩,
    [⟨"name", "name", 1⟩, ⟨"name", "title", 2⟩, ⟨"id", "key", 3⟩]⟩, rfl,
    ViewType.ofTitles_managed, rfl, by decide, by decide, _, _, rfl, rfl, rfl, rfl⟩

end EntityQuery
