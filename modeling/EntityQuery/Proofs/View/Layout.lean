import EntityQuery.Proofs.Outcome
import Mathlib.Data.List.Nodup
import EntityQuery.View.Instance

/-!
# The layout of checked view types

A view type that passed the check keeps its attributes at the positions of their
declaration, under names of their own, with one id at most, and writes only single values
that paths lead to. All facts about the slots of instances rest on this layout.
-/

namespace EntityQuery

namespace ViewType

/-- Attributes at the positions of their declaration. A written one comes from a path. -/
structure Laid (attributes : List ViewAttribute) : Prop where
  positions : attributes.map (·.position) = List.range attributes.length
  names : (attributes.map (·.name)).Nodup
  ids : ∀ a ∈ attributes, ∀ b ∈ attributes, a.isId = true → b.isId = true → a = b
  paths : ∀ a ∈ attributes, a.updatable = true → a.path?.isSome = true ∧ a.collection = none

/-- What the check of a declaration establishes. -/
structure WellFormed (v : ViewType) : Prop extends Laid v.attributes where
  identified : v.canBeWritten = true → v.id?.isSome = true

/-- View types in use come out of a check of all declarations. -/
def Managed (v : ViewType) : Prop :=
  ∃ s r ds vs name, ViewSchema.build s r ds = .ok vs ∧ vs.view name = .ok v

theorem source_of_mapperFor {s : Schema} {r : CorrelationRegistry} {d : ViewDescriptor}
    {a : AttributeDescriptor} {m : Option CorrelationMapper}
    (h : mapperFor s r d a = .ok m) (hu : a.updatable = true) :
    ∃ mapping, a.source = .path mapping := by
  cases hs : a.source with
  | path mapping => exact ⟨mapping, rfl⟩
  | correlated provider basis result fetches =>
    simp only [mapperFor, hs, hu, if_true] at h
    cases h

/-- The checks that a declared attribute passes, and what it is kept as. -/
theorem addAttribute_ok_iff {s : Schema} {r : CorrelationRegistry} {d : ViewDescriptor}
    {built after : List ViewAttribute} {a : AttributeDescriptor} :
    addAttribute s r d built a = .ok after ↔
      (∀ b ∈ built, b.name ≠ a.name) ∧ (a.isId = true → ∀ b ∈ built, b.isId = false) ∧
      (a.updatable = true → a.collection = none) ∧
      ∃ mapper indexed ordered sorted, mapperFor s r d a = .ok mapper ∧
        arrangement s d.entity a = .ok (indexed, ordered, sorted) ∧
        after = built ++ [⟨a.name, built.length, a.source, a.isId, a.updatable, a.collection,
          indexed, ordered, sorted, mapper⟩] := by
  have fresh : built.any (fun b => b.name == a.name) = false ↔ ∀ b ∈ built, b.name ≠ a.name := by
    simp
  have oneId : (a.isId && built.any (·.isId)) = false ↔
      (a.isId = true → ∀ b ∈ built, b.isId = false) := by
    cases a.isId <;> simp
  have single : (a.updatable && a.collection.isSome) = false ↔
      (a.updatable = true → a.collection = none) := by
    cases a.updatable <;> simp
  rw [addAttribute, ← fresh, ← oneId, ← single]
  split
  · rename_i taken
    exact iff_of_false nofun fun h => by simp [h.1] at taken
  split
  · rename_i twice
    exact iff_of_false nofun fun h => by simp [h.2.1] at twice
  split
  · rename_i many
    exact iff_of_false nofun fun h => by simp [h.2.2.1] at many
  rename_i taken twice many
  simp only [Outcome.bind_ok_iff, Prod.exists, Except.ok.injEq, taken, twice, many, true_and,
    eq_comm (a := after), exists_and_left]

theorem addAttribute_ok {s : Schema} {r : CorrelationRegistry} {d : ViewDescriptor}
    {built after : List ViewAttribute} {a : AttributeDescriptor}
    (h : addAttribute s r d built a = .ok after) :
    ∃ b : ViewAttribute, after = built ++ [b] ∧ b.position = built.length ∧
      (∀ c ∈ built, c.name ≠ b.name) ∧ (b.isId = true → ∀ c ∈ built, c.isId = false) ∧
      (b.updatable = true → b.path?.isSome = true ∧ b.collection = none) := by
  obtain ⟨fresh, oneId, single, m, indexed, ordered, sorted, hm, -, rfl⟩ :=
    addAttribute_ok_iff.mp h
  refine ⟨_, rfl, rfl, fresh, oneId, fun updatable => ⟨?_, single updatable⟩⟩
  obtain ⟨mapping, source⟩ := source_of_mapperFor hm updatable
  simp [ViewAttribute.path?, source]

theorem laid_append {built : List ViewAttribute} (h : Laid built) {b : ViewAttribute}
    (position : b.position = built.length) (fresh : ∀ c ∈ built, c.name ≠ b.name)
    (oneId : b.isId = true → ∀ c ∈ built, c.isId = false)
    (path : b.updatable = true → b.path?.isSome = true ∧ b.collection = none) :
    Laid (built ++ [b]) := by
  constructor
  · simp [h.positions, position, List.range_succ]
  · rw [List.map_append, List.nodup_append]
    refine ⟨h.names, by simp, ?_⟩
    intro n hn m hm
    obtain ⟨c, hc, rfl⟩ := List.mem_map.mp hn
    have : m = b.name := by simpa using hm
    exact this ▸ fresh c hc
  · intro x hx y hy hxid hyid
    rcases List.mem_append.mp hx with hx' | hx'
    · rcases List.mem_append.mp hy with hy' | hy'
      · exact h.ids x hx' y hy' hxid hyid
      · obtain rfl := List.mem_singleton.mp hy'
        simp [oneId hyid x hx'] at hxid
    · obtain rfl := List.mem_singleton.mp hx'
      rcases List.mem_append.mp hy with hy' | hy'
      · simp [oneId hxid y hy'] at hyid
      · exact (List.mem_singleton.mp hy').symm
  · intro x hx hu
    rcases List.mem_append.mp hx with hx' | hx'
    · exact h.paths x hx' hu
    · obtain rfl := List.mem_singleton.mp hx'
      exact path hu

theorem laid_foldlM {s : Schema} {r : CorrelationRegistry} {d : ViewDescriptor}
    {attributes : List ViewAttribute}
    (h : d.attributes.foldlM (addAttribute s r d) [] = .ok attributes) : Laid attributes := by
  refine Outcome.foldlM_keeps ?_ ?_ h
  · intro built a after hb hstep
    obtain ⟨b, rfl, position, fresh, oneId, path⟩ := addAttribute_ok hstep
    exact laid_append hb position fresh oneId path
  · constructor <;> simp

theorem build_wellFormed {s : Schema} {r : CorrelationRegistry} {d : ViewDescriptor}
    {v : ViewType} (h : build s r d = .ok v) : v.WellFormed := by
  rw [build] at h
  obtain ⟨-, -, h⟩ := Outcome.bind_ok_iff.mp h
  obtain ⟨attributes, hattributes, h⟩ := Outcome.bind_ok_iff.mp h
  have hp := laid_foldlM hattributes
  dsimp only at h
  split at h
  · cases h
  · rename_i identified
    cases h
    refine ⟨hp, ?_⟩
    intro hw
    simpa [hw, Option.isSome_iff_ne_none] using identified

theorem views_built {s : Schema} {r : CorrelationRegistry} {ds : List ViewDescriptor}
    {vs : ViewSchema} (h : ViewSchema.build s r ds = .ok vs) {name : String} {v : ViewType}
    (hv : vs.views.find? name = some v) : ∃ d, build s r d = .ok v := by
  have all : ∀ n w, vs.views.find? n = some w → ∃ d, build s r d = .ok w := by
    refine Outcome.foldlM_keeps (P := fun vs : ViewSchema =>
      ∀ n w, vs.views.find? n = some w → ∃ d, build s r d = .ok w) ?_ ?_ h
    · intro before d after hbefore hadd
      rw [ViewSchema.add] at hadd
      obtain ⟨view, hview, hadd⟩ := Outcome.bind_ok_iff.mp hadd
      split at hadd
      · cases hadd
      cases hadd
      intro n w hw
      rcases Catalog.eq_or_of_find?_insert hw with ⟨-, rfl⟩ | old
      · exact ⟨d, hview⟩
      · exact hbefore n w old
    · intro n w hw
      cases hw
  exact all name v hv

theorem Managed.wellFormed {v : ViewType} (h : v.Managed) : v.WellFormed := by
  obtain ⟨s, r, ds, vs, name, hbuild, hview⟩ := h
  rw [ViewSchema.view] at hview
  split at hview
  · rename_i w hw
    cases hview
    obtain ⟨d, hd⟩ := views_built hbuild hw
    exact build_wellFormed hd
  · cases hview

/-- A view of documents with an id, two attributes to write and one to read. -/
def ofDocuments : ViewType :=
  ⟨"DocumentView", "Document",
    [⟨"id", 0, .path "id", true, false, none, false, false, false, none⟩,
     ⟨"name", 1, .path "name", false, true, none, false, false, false, none⟩,
     ⟨"age", 2, .path "age", false, true, none, false, false, false, none⟩,
     ⟨"kind", 3, .path "kind", false, false, none, false, false, false, none⟩]⟩

theorem ofDocuments_managed : ofDocuments.Managed :=
  ⟨⟨[("Document", ⟨"Document", "document", "id",
      [.basic "id", .basic "name", .basic "age", .basic "kind"]⟩)]⟩, [],
    [⟨"DocumentView", "Document",
      [⟨"id", .path "id", true, false, none, false, false⟩,
       ⟨"name", .path "name", false, true, none, false, false⟩,
       ⟨"age", .path "age", false, true, none, false, false⟩,
       ⟨"kind", .path "kind", false, false, none, false, false⟩]⟩],
    ⟨[("DocumentView", ofDocuments)]⟩, "DocumentView", rfl, rfl⟩

theorem mem_of_id? {v : ViewType} {a : ViewAttribute} (h : v.id? = some a) :
    a ∈ v.attributes ∧ a.isWritable = false := by
  have hid : a.isId = true := List.find?_some h
  exact ⟨List.mem_of_find?_eq_some h, by simp [ViewAttribute.isWritable, hid]⟩

/-! The places of attributes and of slots. -/

section Places
variable {v : ViewType} (h : v.WellFormed) {a b : ViewAttribute}
include h

theorem position_of_getElem? {n : Nat} (hn : v.attributes[n]? = some a) : a.position = n := by
  obtain ⟨inside, rfl⟩ := List.getElem?_eq_some_iff.mp hn
  have hp : (v.attributes.map (·.position))[n]? = (List.range v.attributes.length)[n]? :=
    congrArg (·[n]?) h.positions
  simpa [inside] using hp

theorem attributes_getElem? (ha : a ∈ v.attributes) : v.attributes[a.position]? = some a := by
  obtain ⟨n, hn⟩ := List.mem_iff_getElem?.mp ha
  rwa [position_of_getElem? h hn]

theorem position_lt (ha : a ∈ v.attributes) : a.position < v.attributes.length :=
  (List.getElem?_eq_some_iff.mp (attributes_getElem? h ha)).1

theorem eq_of_position_eq (ha : a ∈ v.attributes) (hb : b ∈ v.attributes)
    (hp : a.position = b.position) : a = b := by
  have hab := attributes_getElem? h ha
  rw [hp, attributes_getElem? h hb] at hab
  exact (Option.some.inj hab).symm

theorem eq_of_name_eq (ha : a ∈ v.attributes) (hb : b ∈ v.attributes) (hn : a.name = b.name) :
    a = b :=
  List.inj_on_of_nodup_map h.names ha hb hn

theorem attribute?_eq (ha : a ∈ v.attributes) : v.attribute? a.name = some a := by
  rw [attribute?]
  cases hf : v.attributes.find? (fun b => b.name == a.name) with
  | none =>
    have := List.find?_eq_none.mp hf a ha
    simp at this
  | some b =>
    have hname : b.name = a.name := by simpa using List.find?_some hf
    rw [eq_of_name_eq h (List.mem_of_find?_eq_some hf) ha hname]

theorem slotPositions_nodup : v.slotPositions.Nodup := by
  have all : (v.attributes.map (·.position)).Nodup := h.positions ▸ List.nodup_range
  exact all.sublist (List.filter_sublist.map _)

theorem position_mem_slotPositions (ha : a ∈ v.attributes) :
    a.position ∈ v.slotPositions ↔ a.isWritable = true := by
  constructor
  · intro hp
    obtain ⟨b, hb, hba⟩ := List.mem_map.mp hp
    obtain ⟨hb, hw⟩ := List.mem_filter.mp hb
    exact eq_of_position_eq h hb ha hba ▸ hw
  · intro hw
    exact List.mem_map.mpr ⟨a, List.mem_filter.mpr ⟨ha, hw⟩, rfl⟩

theorem slotPositions_lt {p : Nat} (hp : p ∈ v.slotPositions) : p < v.attributes.length := by
  obtain ⟨a, ha, rfl⟩ := List.mem_map.mp hp
  exact position_lt h (List.mem_filter.mp ha).1

theorem path?_isSome (ha : a ∈ v.writable) : a.path?.isSome = true := by
  obtain ⟨hmem, hw⟩ := List.mem_filter.mp ha
  have hu : a.updatable = true := by
    rw [ViewAttribute.isWritable] at hw
    exact (Bool.and_eq_true_iff.mp hw).1
  exact (h.paths a hmem hu).1

theorem exists_path (ha : a ∈ v.writable) : ∃ path, a.path? = some path :=
  Option.isSome_iff_exists.mp (path?_isSome h ha)

end Places

end ViewType
end EntityQuery
