import EntityQuery.Proofs.AttributePaths
import EntityQuery.Proofs.View.Correlation
import EntityQuery.Proofs.View.Layout
import Mathlib.Data.List.Induction

/-!
# Declarations that are accepted

A list of declarations is accepted exactly if each stands for a view by itself and no two have the
same name. What is kept of an accepted attribute follows from its declaration and the schema alone:
the attributes before it decide whether it is accepted, but not how.
-/

namespace EntityQuery

theorem nodup_map_concat {α β : Type} {f : α → β} {as : List α} {a : α} :
    ((as ++ [a]).map f).Nodup ↔ (as.map f).Nodup ∧ f a ∉ as.map f := by
  rw [List.map_append, List.map_singleton, List.nodup_append_comm, List.singleton_append,
    List.nodup_cons, and_comm]

namespace AttributeDescriptor
variable {s : Schema} {r : CorrelationRegistry} {d : ViewDescriptor} {entity : String}
  {a : AttributeDescriptor}

/-- The path of the attribute, if it has one, exists. -/
def Exists (s : Schema) (entity : String) (a : AttributeDescriptor) : Prop :=
  ∀ mapping, a.source = .path mapping → ∃ as, s.Resolves entity mapping as

/-- The path of the attribute ends at a list with indexes, and these are not ignored. -/
def ReadsIndex (s : Schema) (entity : String) (a : AttributeDescriptor) : Prop :=
  a.ignoresIndex = false ∧ ∃ mapping as last, a.source = .path mapping ∧
    s.Resolves entity mapping as ∧ as.getLast? = some last ∧ last.KeepsIndexes

/-- What an attribute needs by itself. Only single values that come from paths are written. -/
structure Acceptable (s : Schema) (r : CorrelationRegistry) (entity : String)
    (a : AttributeDescriptor) : Prop where
  single : a.updatable = true → a.collection = none
  uncorrelated : a.updatable = true → ∃ mapping, a.source = .path mapping
  resolves : a.Exists s entity
  provided : ∀ provider basis result fetches,
    a.source = .correlated provider basis result fetches → ∃ p, Catalog.find? provider r = some p

/-- What is kept of a declared attribute. A list is indexed or else ordered. -/
structure Kept (s : Schema) (entity : String) (a : AttributeDescriptor) (b : ViewAttribute) :
    Prop where
  name : b.name = a.name
  source : b.source = a.source
  isId : b.isId = a.isId
  updatable : b.updatable = a.updatable
  collection : b.collection = a.collection
  listed : a.collection = some .list → b.ordered = !b.indexed
  indexed : b.indexed = true ↔ a.collection = some .list ∧ a.ReadsIndex s entity
  sorted : b.sorted = true ↔ a.collection = some .sortedSet

theorem readsIndex_ok (h : a.Exists s entity) :
    ∃ i, ViewType.readsIndex s entity a = .ok i ∧ (i = true ↔ a.ReadsIndex s entity) := by
  cases source : a.source with
  | correlated provider basis result fetches =>
    refine ⟨false, by simp only [ViewType.readsIndex, source], iff_of_false nofun ?_⟩
    rintro ⟨-, mapping, as, last, path, -⟩
    cases source.symm.trans path
  | path mapping =>
    cases ignores : a.ignoresIndex with
    | true =>
      refine ⟨false, by simp only [ViewType.readsIndex, source, ignores], iff_of_false nofun ?_⟩
      rintro ⟨reads, -⟩
      cases ignores.symm.trans reads
    | false =>
      obtain ⟨as, resolves⟩ := h mapping source
      refine ⟨as.getLast?.any Attribute.listsByIndex, ?_, ?_⟩
      · simp only [ViewType.readsIndex, source, ignores, Schema.listsByIndex_of_resolves resolves]
        rfl
      · rw [Option.any_eq_true]
        constructor
        · rintro ⟨last, ends, lists⟩
          exact ⟨ignores, mapping, as, last, source, resolves, ends,
            Attribute.listsByIndex_iff.mp lists⟩
        · rintro ⟨-, other, bs, last, path, along, ends, keeps⟩
          cases source.symm.trans path
          obtain rfl := resolves.unique along
          exact ⟨last, ends, Attribute.listsByIndex_iff.mpr keeps⟩

theorem arrangement_ok (h : a.Exists s entity) :
    ∃ indexed ordered sorted, ViewType.arrangement s entity a = .ok (indexed, ordered, sorted) ∧
      (a.collection = some .list → ordered = !indexed) ∧
      (indexed = true ↔ a.collection = some .list ∧ a.ReadsIndex s entity) ∧
      (sorted = true ↔ a.collection = some .sortedSet) := by
  cases form : a.collection with
  | none => exact ⟨false, false, false, by simp [ViewType.arrangement, form]⟩
  | some c =>
    cases c with
    | list =>
      obtain ⟨i, reads, indexed⟩ := readsIndex_ok h
      exact ⟨i, !i, false, by simp [ViewType.arrangement, form, reads, bind, Except.bind, indexed]⟩
    | set => exact ⟨false, a.ordered, false, by simp [ViewType.arrangement, form]⟩
    | map => exact ⟨false, a.ordered, false, by simp [ViewType.arrangement, form]⟩
    | sortedSet => exact ⟨false, false, true, by simp [ViewType.arrangement, form]⟩

end AttributeDescriptor

namespace ViewType
variable {s : Schema} {r : CorrelationRegistry} {d : ViewDescriptor} {a : AttributeDescriptor}
  {built after : List ViewAttribute}

theorem mapperFor_ok_iff : (∃ m, mapperFor s r d a = .ok m) ↔ a.Exists s d.entity ∧
    ∀ provider basis result fetches, a.source = .correlated provider basis result fetches →
      a.updatable = false ∧ ∃ p, Catalog.find? provider r = some p := by
  cases source : a.source with
  | path mapping =>
    simp only [mapperFor, source, Outcome.bind_ok_iff, ViewError.ofQuery_ok_iff,
      Schema.attributesAlong_ok_iff]
    constructor
    · rintro ⟨m, as, resolves, -⟩
      refine ⟨fun other same => ?_, by simp⟩
      cases source.symm.trans same
      exact ⟨as, resolves⟩
    · rintro ⟨resolves, -⟩
      obtain ⟨as, along⟩ := resolves mapping source
      exact ⟨none, as, along, rfl⟩
  | correlated provider basis result fetches =>
    simp only [mapperFor, source]
    constructor
    · rintro ⟨m, h⟩
      split at h
      · cases h
      rename_i fixed
      split at h
      · cases h
      rename_i p known
      refine ⟨fun mapping path => ?_, fun _ _ _ _ same => ?_⟩
      · cases source.symm.trans path
      · cases same
        exact ⟨by simpa using fixed, p, known⟩
    · rintro ⟨-, provided⟩
      obtain ⟨fixed, p, known⟩ := provided provider basis result fetches rfl
      exact ⟨_, by simp only [fixed, known]; rfl⟩

theorem exists_addAttribute_iff : (∃ after, addAttribute s r d built a = .ok after) ↔
    a.name ∉ built.map (·.name) ∧ (a.isId = true → ∀ b ∈ built, b.isId = false) ∧
      a.Acceptable s r d.entity := by
  have fresh : a.name ∉ built.map (·.name) ↔ ∀ b ∈ built, b.name ≠ a.name := by simp
  simp only [addAttribute_ok_iff, fresh]
  constructor
  · rintro ⟨after, unused, oneId, single, m, i, o, t, mapped, -⟩
    obtain ⟨resolves, provided⟩ := mapperFor_ok_iff.mp ⟨m, mapped⟩
    exact ⟨unused, oneId, single, source_of_mapperFor mapped, resolves,
      fun _ _ _ _ source => (provided _ _ _ _ source).2⟩
  · rintro ⟨unused, oneId, acceptable⟩
    have mapped : ∃ m, mapperFor s r d a = .ok m := by
      refine mapperFor_ok_iff.mpr ⟨acceptable.resolves, fun _ _ _ _ source => ⟨?_, ?_⟩⟩
      · cases updatable : a.updatable with
        | false => rfl
        | true =>
          obtain ⟨mapping, path⟩ := acceptable.uncorrelated updatable
          cases source.symm.trans path
      · exact acceptable.provided _ _ _ _ source
    obtain ⟨m, mapped⟩ := mapped
    obtain ⟨i, o, t, arranged, -⟩ := AttributeDescriptor.arrangement_ok acceptable.resolves
    exact ⟨_, unused, oneId, acceptable.single, m, i, o, t, mapped, arranged, rfl⟩

theorem kept_of_addAttribute (h : addAttribute s r d built a = .ok after) :
    ∃ b, after = built ++ [b] ∧ a.Kept s d.entity b := by
  have acceptable := (exists_addAttribute_iff.mp ⟨after, h⟩).2.2
  obtain ⟨-, -, -, m, i, o, t, -, arranged, rfl⟩ := addAttribute_ok_iff.mp h
  obtain ⟨indexed, ordered, sorted, same, listed, byIndex, isSorted⟩ :=
    AttributeDescriptor.arrangement_ok acceptable.resolves
  cases arranged.symm.trans same
  exact ⟨_, rfl, rfl, rfl, rfl, rfl, rfl, listed, byIndex, isSorted⟩

/-- The attributes of a view fit together: their names differ, and one at most is an id. -/
structure Fits (s : Schema) (r : CorrelationRegistry) (entity : String)
    (attributes : List AttributeDescriptor) : Prop where
  names : (attributes.map (·.name)).Nodup
  ids : (attributes.filter (·.isId)).length ≤ 1
  each : ∀ a ∈ attributes, a.Acceptable s r entity

theorem fits_concat_iff {entity : String} {before : List AttributeDescriptor} :
    Fits s r entity (before ++ [a]) ↔ Fits s r entity before ∧ a.name ∉ before.map (·.name) ∧
      (a.isId = true → ∀ b ∈ before, b.isId = false) ∧ a.Acceptable s r entity := by
  have ids : ((before ++ [a]).filter (·.isId)).length ≤ 1 ↔
      (before.filter (·.isId)).length ≤ 1 ∧ (a.isId = true → ∀ b ∈ before, b.isId = false) := by
    have void : (before.filter (·.isId)).length = 0 ↔ ∀ b ∈ before, b.isId = false := by
      rw [List.length_eq_zero_iff, List.filter_eq_nil_iff]
      simp
    rw [List.filter_append, List.length_append, ← void]
    cases isId : a.isId with
    | true => simpa [isId] using fun none => (void.mpr none).trans_le (Nat.zero_le 1)
    | false => simp [isId]
  have each : (∀ b ∈ before ++ [a], b.Acceptable s r entity) ↔
      (∀ b ∈ before, b.Acceptable s r entity) ∧ a.Acceptable s r entity := by
    rw [List.forall_mem_append, List.forall_mem_singleton]
  constructor
  · rintro ⟨named, identified, all⟩
    obtain ⟨namedBefore, fresh⟩ := nodup_map_concat.mp named
    obtain ⟨identifiedBefore, oneId⟩ := ids.mp identified
    obtain ⟨allBefore, last⟩ := each.mp all
    exact ⟨⟨namedBefore, identifiedBefore, allBefore⟩, fresh, oneId, last⟩
  · rintro ⟨⟨named, identified, all⟩, fresh, oneId, last⟩
    exact ⟨nodup_map_concat.mpr ⟨named, fresh⟩, ids.mpr ⟨identified, oneId⟩, each.mpr ⟨all, last⟩⟩

theorem addAttribute_concat {before : List AttributeDescriptor} :
    (before ++ [a]).foldlM (addAttribute s r d) [] = .ok after ↔
      ∃ built, before.foldlM (addAttribute s r d) [] = .ok built ∧
        addAttribute s r d built a = .ok after := by
  rw [List.foldlM_append, Outcome.bind_ok_iff]
  simp only [List.foldlM_cons, List.foldlM_nil, bind_pure]

/-- The check of an attribute sees of those before it what was declared. -/
theorem exists_addAttribute_iff_declared {before : List AttributeDescriptor}
    (kept : List.Forall₂ (AttributeDescriptor.Kept s d.entity) before built) :
    (∃ after, addAttribute s r d built a = .ok after) ↔
      a.name ∉ before.map (·.name) ∧ (a.isId = true → ∀ b ∈ before, b.isId = false) ∧
        a.Acceptable s r d.entity := by
  have names : a.name ∈ built.map (·.name) ↔ a.name ∈ before.map (·.name) := by
    rw [List.mem_map, List.mem_map]
    exact Outcome.exists_mem_iff_of_forall₂ kept fun _ _ same => by rw [same.name]
  have ids : (∃ b ∈ built, b.isId = true) ↔ ∃ b ∈ before, b.isId = true :=
    Outcome.exists_mem_iff_of_forall₂ kept fun _ _ same => by rw [same.isId]
  have none : (∀ b ∈ built, b.isId = false) ↔ ∀ b ∈ before, b.isId = false := by
    simpa using not_congr ids
  rw [exists_addAttribute_iff, names, none]

/-- Each attribute of a list that fits is added to those before it, which are kept one for one. -/
theorem addAttributes (s : Schema) (r : CorrelationRegistry) (d : ViewDescriptor)
    (declared : List AttributeDescriptor) :
    ((∃ built, declared.foldlM (addAttribute s r d) [] = .ok built) ↔ Fits s r d.entity declared) ∧
      ∀ built, declared.foldlM (addAttribute s r d) [] = .ok built →
        List.Forall₂ (AttributeDescriptor.Kept s d.entity) declared built := by
  induction declared using List.reverseRecOn with
  | nil =>
    refine ⟨iff_of_true ⟨[], rfl⟩ ⟨.nil, Nat.zero_le 1, nofun⟩, fun built h => ?_⟩
    cases h
    exact .nil
  | append_singleton before a ih =>
    obtain ⟨fits, kept⟩ := ih
    refine ⟨?_, fun after h => ?_⟩
    · rw [fits_concat_iff, ← fits]
      constructor
      · rintro ⟨after, h⟩
        obtain ⟨built, added, step⟩ := addAttribute_concat.mp h
        exact ⟨⟨built, added⟩,
          (exists_addAttribute_iff_declared (kept built added)).mp ⟨after, step⟩⟩
      · rintro ⟨⟨built, added⟩, next⟩
        obtain ⟨after, step⟩ := (exists_addAttribute_iff_declared (kept built added)).mpr next
        exact ⟨after, addAttribute_concat.mpr ⟨built, added, step⟩⟩
    · obtain ⟨built, added, step⟩ := addAttribute_concat.mp h
      obtain ⟨b, rfl, last⟩ := kept_of_addAttribute step
      exact List.rel_append (kept built added) (.cons last .nil)

end ViewType

/-- A declaration of an entity that exists, whose attributes fit together, with an id if there is
something else to write. -/
structure ViewDescriptor.Acceptable (s : Schema) (r : CorrelationRegistry) (d : ViewDescriptor) :
    Prop extends ViewType.Fits s r d.entity d.attributes where
  entity : ∃ e, s.entity? d.entity = some e
  identified : (∃ a ∈ d.attributes, a.updatable = true ∧ a.isId = false) →
    ∃ a ∈ d.attributes, a.isId = true

/-- What a view keeps of its declaration, with each attribute at the position of its declaration. -/
structure ViewDescriptor.Kept (s : Schema) (d : ViewDescriptor) (v : ViewType) : Prop where
  name : v.name = d.name
  entity : v.entity = d.entity
  positions : v.attributes.map (·.position) = List.range d.attributes.length
  attributes : List.Forall₂ (AttributeDescriptor.Kept s d.entity) d.attributes v.attributes

namespace ViewType
variable {s : Schema} {r : CorrelationRegistry} {d : ViewDescriptor} {v : ViewType}

theorem build_ok_iff : build s r d = .ok v ↔ (∃ e, s.entity? d.entity = some e) ∧
    ∃ built, d.attributes.foldlM (addAttribute s r d) [] = .ok built ∧
      v = ⟨d.name, d.entity, built⟩ ∧
      ((∃ b ∈ built, b.updatable = true ∧ b.isId = false) → ∃ b ∈ built, b.isId = true) := by
  have checks : ∀ v : ViewType, (v.canBeWritten && v.id?.isNone) = false ↔
      ((∃ b ∈ v.attributes, b.updatable = true ∧ b.isId = false) →
        ∃ b ∈ v.attributes, b.isId = true) := by
    intro v
    have written : v.canBeWritten = true ↔
        ∃ b ∈ v.attributes, b.updatable = true ∧ b.isId = false := by
      simp [canBeWritten, ViewAttribute.isWritable]
    have identified : v.id?.isNone = false ↔ ∃ b ∈ v.attributes, b.isId = true := by
      simp [id?]
    rw [Bool.and_eq_false_imp, written, identified]
  rw [build, Outcome.bind_ok_iff]
  simp only [ViewError.ofQuery_ok_iff, Schema.entity_eq_ok_iff, exists_and_right]
  refine and_congr_right fun _ => ?_
  rw [Outcome.bind_ok_iff]
  refine exists_congr fun built => and_congr_right fun _ => ?_
  rw [← checks ⟨d.name, d.entity, built⟩]
  split
  · rename_i failed
    exact iff_of_false (by simp) fun h => by simp [h.2] at failed
  · rename_i passed
    simp [passed, eq_comm]

/-- What the built attributes say of ids and of writing is what the declared ones say. -/
theorem identified_iff {declared : List AttributeDescriptor} {built : List ViewAttribute}
    (kept : List.Forall₂ (AttributeDescriptor.Kept s d.entity) declared built) :
    ((∃ b ∈ built, b.updatable = true ∧ b.isId = false) → ∃ b ∈ built, b.isId = true) ↔
      ((∃ a ∈ declared, a.updatable = true ∧ a.isId = false) → ∃ a ∈ declared, a.isId = true) := by
  refine imp_congr (Outcome.exists_mem_iff_of_forall₂ kept fun a b same => ?_)
    (Outcome.exists_mem_iff_of_forall₂ kept fun a b same => ?_)
  · rw [same.updatable, same.isId]
  · rw [same.isId]

theorem exists_build_iff : (∃ v, build s r d = .ok v) ↔ d.Acceptable s r := by
  obtain ⟨fits, kept⟩ := addAttributes s r d d.attributes
  constructor
  · rintro ⟨v, h⟩
    obtain ⟨known, built, added, rfl, identified⟩ := build_ok_iff.mp h
    exact ⟨fits.mp ⟨built, added⟩, known, (identified_iff (kept built added)).mp identified⟩
  · rintro ⟨fit, known, identified⟩
    obtain ⟨built, added⟩ := fits.mpr fit
    exact ⟨_, build_ok_iff.mpr
      ⟨known, built, added, rfl, (identified_iff (kept built added)).mpr identified⟩⟩

theorem kept_of_build (h : build s r d = .ok v) : d.Kept s v := by
  have positions := (build_wellFormed h).positions
  obtain ⟨-, built, added, rfl, -⟩ := build_ok_iff.mp h
  have kept := (addAttributes s r d d.attributes).2 built added
  exact ⟨rfl, rfl, positions.trans (kept.length_eq ▸ rfl), kept⟩

end ViewType

namespace ViewSchema
variable {s : Schema} {r : CorrelationRegistry} {d : ViewDescriptor} {vs after : ViewSchema}

theorem add_ok_iff : add s r vs d = .ok after ↔ ∃ v, ViewType.build s r d = .ok v ∧
    vs.views.find? d.name = none ∧ after = ⟨vs.views.insert d.name v⟩ := by
  rw [add, Outcome.bind_ok_iff]
  refine exists_congr fun v => and_congr_right fun built => ?_
  rw [(ViewType.kept_of_build built).name, Catalog.contains]
  cases vs.views.find? d.name <;> simp [eq_comm]

theorem view_ok_iff {name : String} {v : ViewType} :
    vs.view name = .ok v ↔ vs.views.find? name = some v := by
  rw [view]
  cases vs.views.find? name <;> simp

theorem build_concat {before : List ViewDescriptor} :
    build s r (before ++ [d]) = .ok after ↔
      ∃ vs, build s r before = .ok vs ∧ add s r vs d = .ok after := by
  rw [build, List.foldlM_append, Outcome.bind_ok_iff]
  simp only [List.foldlM_cons, List.foldlM_nil, bind_pure, build]

/-- The views are those of the declarations, each under the name of its own. -/
def Lists (s : Schema) (r : CorrelationRegistry) (ds : List ViewDescriptor) (vs : ViewSchema) :
    Prop :=
  ∀ name v, vs.views.find? name = some v ↔
    ∃ d ∈ ds, d.name = name ∧ ViewType.build s r d = .ok v

section Lists
variable {before : List ViewDescriptor} (lists : Lists s r before vs)
include lists

theorem Lists.absent_iff (each : ∀ d ∈ before, d.Acceptable s r) (name : String) :
    vs.views.find? name = none ↔ name ∉ before.map (·.name) := by
  rw [Option.eq_none_iff_forall_ne_some, List.mem_map]
  constructor
  · rintro free ⟨d, there, same⟩
    obtain ⟨v, built⟩ := ViewType.exists_build_iff.mpr (each d there)
    exact free v ((lists name v).mpr ⟨d, there, same, built⟩)
  · rintro absent v named
    obtain ⟨d, there, same, -⟩ := (lists name v).mp named
    exact absent ⟨d, there, same⟩

theorem Lists.insert {v : ViewType} (built : ViewType.build s r d = .ok v)
    (absent : d.name ∉ before.map (·.name)) :
    Lists s r (before ++ [d]) ⟨vs.views.insert d.name v⟩ := by
  intro name w
  by_cases same : name = d.name
  · subst same
    rw [Catalog.find?_insert_self]
    constructor
    · rintro ⟨⟩
      exact ⟨d, List.mem_append_right before List.mem_cons_self, rfl, built⟩
    · rintro ⟨other, there, same, made⟩
      rcases List.mem_append.mp there with old | new
      · exact absurd (List.mem_map.mpr ⟨other, old, same⟩) absent
      · obtain rfl := List.mem_singleton.mp new
        rw [made] at built
        cases built
        rfl
  · rw [Catalog.find?_insert_of_ne v vs.views same, lists]
    constructor
    · rintro ⟨other, there, rest⟩
      exact ⟨other, List.mem_append_left [d] there, rest⟩
    · rintro ⟨other, there, named, made⟩
      rcases List.mem_append.mp there with old | new
      · exact ⟨other, old, named, made⟩
      · obtain rfl := List.mem_singleton.mp new
        exact absurd named.symm same

end Lists

theorem addViews (s : Schema) (r : CorrelationRegistry) (ds : List ViewDescriptor) :
    ((∃ vs, build s r ds = .ok vs) ↔
      (ds.map (·.name)).Nodup ∧ ∀ d ∈ ds, d.Acceptable s r) ∧
      ∀ vs, build s r ds = .ok vs → Lists s r ds vs := by
  induction ds using List.reverseRecOn with
  | nil =>
    refine ⟨iff_of_true ⟨⟨[]⟩, rfl⟩ ⟨.nil, nofun⟩, fun vs h name v => ?_⟩
    cases h
    exact iff_of_false nofun fun ⟨d, absent, _⟩ => nomatch absent
  | append_singleton before d ih =>
    obtain ⟨accepted, listed⟩ := ih
    refine ⟨?_, fun after h => ?_⟩
    · rw [nodup_map_concat, List.forall_mem_append, List.forall_mem_singleton]
      constructor
      · rintro ⟨after, h⟩
        obtain ⟨vs, added, h⟩ := build_concat.mp h
        obtain ⟨v, built, free, -⟩ := add_ok_iff.mp h
        obtain ⟨apart, each⟩ := accepted.mp ⟨vs, added⟩
        exact ⟨⟨apart, ((listed vs added).absent_iff each d.name).mp free⟩, each,
          ViewType.exists_build_iff.mp ⟨v, built⟩⟩
      · rintro ⟨⟨apart, absent⟩, each, last⟩
        obtain ⟨vs, added⟩ := accepted.mpr ⟨apart, each⟩
        obtain ⟨v, built⟩ := ViewType.exists_build_iff.mpr last
        have free := ((listed vs added).absent_iff each d.name).mpr absent
        exact ⟨_, build_concat.mpr ⟨vs, added, add_ok_iff.mpr ⟨v, built, free, rfl⟩⟩⟩
    · obtain ⟨vs, added, h⟩ := build_concat.mp h
      obtain ⟨v, built, free, rfl⟩ := add_ok_iff.mp h
      have each := (accepted.mp ⟨vs, added⟩).2
      exact (listed vs added).insert built (((listed vs added).absent_iff each d.name).mp free)

/-- Declarations are accepted exactly if their names differ and each of them is acceptable by
itself. Then each has its view under its name, and every view keeps what it was declared with: its
attributes stand at the positions of their declaration, a list is indexed or else ordered, and
sorted sets alone are sorted. -/
theorem accepted_iff (s : Schema) (r : CorrelationRegistry) (ds : List ViewDescriptor) :
    ((∃ vs, build s r ds = .ok vs) ↔
      (ds.map (·.name)).Nodup ∧ ∀ d ∈ ds, d.Acceptable s r) ∧
      ∀ vs, build s r ds = .ok vs →
        (∀ d ∈ ds, ∃ v, vs.view d.name = .ok v) ∧
          ∀ name v, vs.view name = .ok v → ∃ d ∈ ds, d.name = name ∧ d.Kept s v := by
  obtain ⟨accepted, listed⟩ := addViews s r ds
  refine ⟨accepted, fun vs h => ⟨fun d there => ?_, fun name v named => ?_⟩⟩
  · obtain ⟨v, built⟩ := ViewType.exists_build_iff.mpr ((accepted.mp ⟨vs, h⟩).2 d there)
    exact ⟨v, view_ok_iff.mpr ((listed vs h d.name v).mpr ⟨d, there, rfl, built⟩)⟩
  · obtain ⟨d, there, same, built⟩ := (listed vs h name v).mp (view_ok_iff.mp named)
    exact ⟨d, there, same, ViewType.kept_of_build built⟩

/-- Tags keep their indexes in a join table and the documents of an owner in a column, which one of
the attributes ignores. -/
theorem accepted_iff_documents :
    let table : JoinTable :=
      ⟨"document_tags", ["id"], [("document_id", "id")], some [("tag_index", "tag_index")], none,
        ["id"], [("tag_id", "id")]⟩
    let tags := (Attribute.plural "tags" .list "Person").storedIn table
    let documents := (Attribute.plural "documents" .list "Document").indexedBy "place"
    let s : Schema := ⟨[("Document", ⟨"Document", "document", "id",
        [.basic "id", .basic "name", tags, .association "owner" "Person"]⟩),
      ("Person", ⟨"Person", "person", "id", [.basic "id", documents]⟩)]⟩
    let r : CorrelationRegistry := [("partners", .ofEntity "Person" "id")]
    let d : ViewDescriptor := ⟨"DocumentView", "Document",
      [⟨"id", .path "id", true, false, none, false, false⟩,
       ⟨"name", .path "name", false, true, none, false, false⟩,
       ⟨"tags", .path "tags", false, false, some .list, false, false⟩,
       ⟨"others", .path "owner.documents", false, false, some .list, false, true⟩,
       ⟨"unsorted", .path "owner.documents", false, false, some .list, true, false⟩,
       ⟨"partners", .correlated "partners" "id" "" [], false, false, some .sortedSet, false, true⟩]⟩
    (build s r [d]).isOk = true ∧ ([d].map (·.name)).Nodup ∧ d.Acceptable s r ∧
      ∃ vs v, build s r [d] = .ok vs ∧ vs.view "DocumentView" = .ok v ∧ d.Kept s v ∧
        v.attributes.map (fun b => (b.position, b.indexed, b.ordered, b.sorted)) =
          [(0, false, false, false), (1, false, false, false), (2, true, false, false),
            (3, true, false, false), (4, false, true, false), (5, false, false, true)] := by
  intro table tags documents s r d
  obtain ⟨accepted, kept⟩ := accepted_iff s r [d]
  have arranged : (build s r [d] >>= (·.view "DocumentView")).toOption.map (fun v =>
      v.attributes.map fun b => (b.position, b.indexed, b.ordered, b.sorted)) =
        some [(0, false, false, false), (1, false, false, false), (2, true, false, false),
          (3, true, false, false), (4, false, true, false), (5, false, false, true)] := by
    decide +kernel
  cases built : build s r [d] with
  | error e =>
    rw [built] at arranged
    cases arranged
  | ok vs =>
    obtain ⟨apart, each⟩ := accepted.mp ⟨vs, built⟩
    obtain ⟨views, declared⟩ := kept vs built
    obtain ⟨v, named⟩ := views d List.mem_cons_self
    obtain ⟨other, there, -, keeps⟩ := declared _ v named
    obtain rfl := List.mem_singleton.mp there
    rw [built] at arranged
    change (vs.view d.name).toOption.map _ = _ at arranged
    rw [named] at arranged
    exact ⟨rfl, apart, each _ List.mem_cons_self, vs, v, rfl, named, keeps,
      Option.some.inj arranged⟩

end ViewSchema
end EntityQuery
