import EntityQuery.Proofs.View.Cell
import EntityQuery.Proofs.View.Correlation

/-!
# The query of a view

The query that reads a view has one item for each attribute, in the order of the declaration, so
that a row of its result holds the values of an instance in their places. A path attribute is
read from the root, and a correlated one from a node of its own, which joins the entity of its
provider.
-/

namespace EntityQuery

theorem exists_of_forall₂ {α β : Type} {R : α → β → Prop} {as : List α} {bs : List β}
    (h : List.Forall₂ R as bs) {i : Nat} {b : β} (hb : bs[i]? = some b) :
    ∃ a, as[i]? = some a ∧ R a b := by
  obtain ⟨inside, rfl⟩ := List.getElem?_eq_some_iff.mp hb
  have here : i < as.length := h.length_eq ▸ inside
  exact ⟨as[i], List.getElem?_eq_getElem here, h.get here inside⟩

/-- Every provider joins one entity, one of whose attributes equals what it is given. -/
def CorrelationRegistry.OfEntities (r : CorrelationRegistry) : Prop :=
  ∀ provider p, Catalog.find? provider r = some p → ∃ entity name, p = .ofEntity entity name

namespace ViewType
variable {s : Schema} {r : CorrelationRegistry} {d : ViewDescriptor}

/-- What the check of its declaration says about where an attribute comes from: a path of the
schema, or a provider of the registry. -/
inductive Sourced (s : Schema) (r : CorrelationRegistry) (entity : String) (b : ViewAttribute) :
    Prop where
  | path {mapping : String} {along : List Attribute} (source : b.source = .path mapping)
      (exist : s.attributesAlong entity mapping = .ok along) : Sourced s r entity b
  | correlated {provider basis result : String} {fetches : List String} {p : CorrelationProvider}
      (source : b.source = .correlated provider basis result fetches)
      (known : Catalog.find? provider r = some p)
      (mapper : b.mapper = some ⟨provider, p, "", b.name, basis, result, fetches⟩) :
      Sourced s r entity b

theorem sourced_of_addAttribute {built after : List ViewAttribute} {a : AttributeDescriptor}
    (h : addAttribute s r d built a = .ok after) :
    ∃ b, after = built ++ [b] ∧ Sourced s r d.entity b := by
  obtain ⟨-, -, -, m, indexed, ordered, sorted, hm, -, rfl⟩ := addAttribute_ok_iff.mp h
  refine ⟨_, rfl, ?_⟩
  cases source : a.source with
  | path mapping =>
    simp only [mapperFor, source] at hm
    obtain ⟨along, exist, -⟩ := Outcome.bind_ok_iff.mp hm
    exact .path rfl (ViewError.ofQuery_ok_iff.mp exist)
  | correlated provider basis result fetches =>
    simp only [mapperFor, source] at hm
    split at hm
    · cases hm
    split at hm
    · cases hm
    · rename_i p known
      cases hm
      exact .correlated rfl known rfl

theorem sourced_of_build {v : ViewType} (h : build s r d = .ok v) :
    (s.entity? v.entity).isSome = true ∧ ∀ a ∈ v.attributes, Sourced s r v.entity a := by
  rw [build] at h
  obtain ⟨e, known, rest⟩ := Outcome.bind_ok_iff.mp h
  obtain ⟨attributes, added, checked⟩ := Outcome.bind_ok_iff.mp rest
  have all : ∀ a ∈ attributes, Sourced s r d.entity a := by
    refine Outcome.foldlM_keeps
      (P := fun built => ∀ a ∈ built, Sourced s r d.entity a) ?_ ?_ added
    · intro built a after before step
      obtain ⟨b, rfl, sourced⟩ := sourced_of_addAttribute step
      intro c hc
      rcases List.mem_append.mp hc with old | new
      · exact before c old
      · obtain rfl := List.mem_singleton.mp new
        exact sourced
    · intro a ha
      cases ha
  have entity := Schema.entity_ok_iff.mp ⟨e, ViewError.ofQuery_ok_iff.mp known⟩
  dsimp only at checked
  split at checked
  · cases checked
  · cases checked
    exact ⟨entity, all⟩

end ViewType

namespace SelectedItem

/-- The node that an item reads, where it is a path that is bound to one. -/
def node? (item : SelectedItem) : Option Nat :=
  match item.expression with
  | .path p => p.node
  | _ => none

end SelectedItem

namespace ViewType
open CorrelationMapper (behindAlias fieldOf)

/-- The item reads the attribute: its path from the root, or what its provider correlates, from
a node that joins the entity of the provider to the root. -/
inductive Shows (r : CorrelationRegistry) (label : String) (nodes : List ForestNode)
    (a : ViewAttribute) : SelectedItem → Prop where
  | path {mapping : String} (source : a.source = .path mapping) :
      Shows r label nodes a ⟨.path (.bound (label ++ "." ++ mapping) 0 (some mapping)), none⟩
  | correlated {provider basis result entity name : String} {fetches : List String} {k : Nat}
      {n : ForestNode} (source : a.source = .correlated provider basis result fetches)
      (known : Catalog.find? provider r = some (.ofEntity entity name))
      (joined : nodes[k]? = some n) (below : n.origin = .entity 0) (same : n.entity = entity) :
      Shows r label nodes a ⟨.path (.bound (behindAlias n.label result) k (fieldOf result)), none⟩

/-- The query reads the view attribute by attribute, and no other item reads the node of a
correlated attribute. -/
structure LinesUp (v : ViewType) (r : CorrelationRegistry) (label : String) (q : Query) :
    Prop where
  root : ∃ n, q.forest.nodes[0]? = some n ∧ n.origin = .root ∧ n.label = label ∧
    n.entity = v.entity
  items : List.Forall₂ (Shows r label q.forest.nodes) v.attributes q.items
  alone : ∀ (i j : Nat) (a : ViewAttribute) (x y : SelectedItem), v.attributes[i]? = some a →
    a.path? = none → q.items[i]? = some x → q.items[j]? = some y → x.node? = y.node? → i = j

/-- The query has items for the attributes so far. -/
structure Reads (s : Schema) (r : CorrelationRegistry) (label entity : String)
    (done : List ViewAttribute) (q : Query) : Prop where
  schema : q.basis.schema = s
  identifier : Text.isIdentifier label = true
  known : q.scope.find? label = some (.join 0)
  root : ∃ n, q.forest.nodes[0]? = some n ∧ n.origin = .root ∧ n.label = label ∧
    n.entity = entity
  items : List.Forall₂ (Shows r label q.forest.nodes) done q.items
  apart : q.items.Pairwise fun x y => x.node? = y.node? → x.node? = some 0

section Reading
variable {label entity : String} {done : List ViewAttribute} {a : ViewAttribute}
  {q q' mid : Query}

theorem Shows.joined {item : SelectedItem} (h : Shows r label q.forest.nodes a item)
    (joins : q.Joined mid) : Shows r label mid.forest.nodes a item := by
  cases h with
  | path source => exact .path source
  | correlated source known joined below same =>
    exact .correlated source known (joins.node joined) below same

theorem Shows.node_lt {nodes : List ForestNode} (rooted : 0 < nodes.length) {item : SelectedItem}
    (h : Shows r label nodes a item) : ∃ k < nodes.length, item.node? = some k := by
  cases h with
  | path source => exact ⟨0, rooted, rfl⟩
  | correlated source known joined below same =>
    exact ⟨_, (List.getElem?_eq_some_iff.mp joined).1, rfl⟩

/-- An item reads a node that is there. -/
theorem Reads.inside (h : Reads s r label entity done q) :
    ∀ item ∈ q.items, ∃ k < q.forest.size, item.node? = some k := by
  obtain ⟨n, hn, -⟩ := h.root
  have rooted := (List.getElem?_eq_some_iff.mp hn).1
  intro item hitem
  obtain ⟨i, hi⟩ := List.mem_iff_getElem?.mp hitem
  obtain ⟨a, -, shows⟩ := exists_of_forall₂ h.items hi
  exact shows.node_lt rooted

/-- Joins and then an item for the next attribute. -/
theorem Reads.next (h : Reads s r label entity done q) (joins : q.Joined mid) {e : Expression}
    (shows : Shows r label mid.forest.nodes a ⟨e, none⟩)
    (apart : ∀ x ∈ q.items, x.node? = (SelectedItem.mk e none).node? → x.node? = some 0) :
    Reads s r label entity (done ++ [a]) (mid.putItem e none) where
  schema := by
    show mid.basis.schema = s
    rw [joins.basis, h.schema]
  identifier := h.identifier
  known := joins.scope _ _ h.known
  root := by
    obtain ⟨n, hn, root⟩ := h.root
    exact ⟨n, joins.node hn, root⟩
  items := by
    show List.Forall₂ _ _ (mid.items ++ [⟨e, none⟩])
    rw [joins.items]
    have before := h.items.imp fun _ _ (shows : Shows _ _ _ _ _) => shows.joined joins
    exact List.rel_append before (.cons shows .nil)
  apart := by
    show (mid.items ++ [SelectedItem.mk e none]).Pairwise _
    rw [joins.items, List.pairwise_append]
    refine ⟨h.apart, List.pairwise_singleton _ _, ?_⟩
    intro x hx y hy
    obtain rfl := List.mem_singleton.mp hy
    exact apart x hx

theorem Reads.selectAttribute (h : Reads s r label entity done q)
    (plain : r.OfEntities) (sourced : Sourced s r entity a)
    (hs : ViewType.selectAttribute label q a = .ok q') :
    Reads s r label entity (done ++ [a]) q' := by
  rw [ViewType.selectAttribute] at hs
  cases sourced with
  | path source exist =>
    rw [source] at hs
    obtain ⟨p, resolved, rfl⟩ :=
      Query.selectByPath_none_ok_iff.mp (ViewError.ofQuery_ok_iff.mp hs)
    obtain rfl := Query.path_field_of_join h.identifier h.known resolved
    exact h.next (.refl q) (.path source) fun x hx same => same
  | correlated source known mapper =>
    obtain ⟨entity, name, rfl⟩ := plain _ _ known
    rw [source, mapper] at hs
    obtain ⟨mid, parent, n, joins, base, joined, -, same, below, -, rfl⟩ :=
      CorrelationMapper.apply_ok rfl hs
    cases h.known.symm.trans base
    refine h.next joins (.correlated source known joined below same) ?_
    intro x hx meets
    obtain ⟨k, inside, reads⟩ := h.inside x hx
    cases reads.symm.trans meets
    exact absurd inside (Nat.lt_irrefl _)

theorem Reads.foldlM (h : Reads s r label entity done q)
    (plain : r.OfEntities)
    {rest : List ViewAttribute} (sourced : ∀ a ∈ rest, Sourced s r entity a)
    (hs : rest.foldlM (ViewType.selectAttribute label) q = .ok q') :
    Reads s r label entity (done ++ rest) q' := by
  induction rest generalizing q done with
  | nil =>
    cases hs
    simpa using h
  | cons a rest ih =>
    rw [List.foldlM_cons] at hs
    obtain ⟨m, first, others⟩ := Outcome.bind_ok_iff.mp hs
    rw [List.forall_mem_cons] at sourced
    have := ih (h.selectAttribute plain sourced.1 first) sourced.2 others
    simpa using this

theorem reads_start {basis : QueryBasis} (hs : Query.start basis entity label = .ok q) :
    Reads basis.schema r label entity [] q := by
  obtain ⟨identifier, -, -, rfl⟩ := Query.withRoot_ok_iff.mp hs
  exact ⟨rfl, identifier, AliasScope.find?_put_self _, ⟨_, rfl, rfl, rfl, rfl⟩, .nil, .nil⟩

/-- A path attribute can be selected wherever its root is known. -/
theorem Reads.selectAttribute_ok (h : Reads s r label entity done q)
    (sourced : Sourced s r entity a) (path : a.path?.isSome = true) :
    ∃ q', ViewType.selectAttribute label q a = .ok q' := by
  cases sourced with
  | correlated source known mapper => simp [ViewAttribute.path?, source] at path
  | path source exist =>
    obtain ⟨n, hn, -, -, same⟩ := h.root
    have resolved := Query.path_field_ok h.identifier h.known hn
      (by rw [h.schema, same]; exact exist)
    have selects : q.selectByPath (label ++ "." ++ _) none = .ok _ :=
      Query.selectByPath_none_ok_iff.mpr ⟨_, resolved, rfl⟩
    exact ⟨_, by rw [ViewType.selectAttribute, source]; exact ViewError.ofQuery_ok_iff.mpr selects⟩

theorem Reads.foldlM_ok (h : Reads s r label entity done q) (plain : r.OfEntities)
    {rest : List ViewAttribute} (sourced : ∀ a ∈ rest, Sourced s r entity a)
    (paths : ∀ a ∈ rest, a.path?.isSome = true) :
    ∃ q', rest.foldlM (ViewType.selectAttribute label) q = .ok q' := by
  induction rest generalizing q done with
  | nil => exact ⟨q, rfl⟩
  | cons a rest ih =>
    rw [List.forall_mem_cons] at sourced paths
    obtain ⟨m, first⟩ := h.selectAttribute_ok sourced.1 paths.1
    obtain ⟨q', others⟩ := ih (h.selectAttribute plain sourced.1 first) sourced.2 paths.2
    exact ⟨q', by rw [List.foldlM_cons]; exact Outcome.bind_ok_iff.mpr ⟨m, first, others⟩⟩

end Reading

/-- No two items read the same node, unless it is the root. -/
theorem Reads.linesUp {v : ViewType} {label : String} {q : Query}
    (h : Reads s r label v.entity v.attributes q) : v.LinesUp r label q := by
  refine ⟨h.root, h.items, ?_⟩
  intro i j a x y ha correlated hx hy same
  obtain ⟨b, hb, shows⟩ := exists_of_forall₂ h.items hx
  cases ha.symm.trans hb
  -- The item of a correlated attribute reads a node below the root, so not the root.
  have other : x.node? ≠ some 0 := by
    cases shows with
    | path source => simp [ViewAttribute.path?, source] at correlated
    | correlated source known joined below _ =>
      intro zero
      obtain ⟨n, hn, origin, -⟩ := h.root
      cases zero
      cases hn.symm.trans joined
      cases origin.symm.trans below
  have apart := List.pairwise_iff_getElem.mp h.apart
  obtain ⟨hi, rfl⟩ := List.getElem?_eq_some_iff.mp hx
  obtain ⟨hj, rfl⟩ := List.getElem?_eq_some_iff.mp hy
  rcases Nat.lt_trichotomy i j with before | here | behind
  · exact absurd (apart i j hi hj before same) other
  · exact here
  · exact absurd (same.trans (apart j i hj hi behind same.symm)) other

/-- A row of one value for each attribute makes an instance, which gives them back. -/
theorem row_reads {v : ViewType} (hv : v.WellFormed) {row : List Value}
    (whole : row.length = v.attributes.length) :
    ∃ i, ViewInstance.ofValues v row = .ok i ∧ ∀ (k : Nat) (a : ViewAttribute),
      v.attributes[k]? = some a → ∃ value, row[k]? = some value ∧ i.get a.name = .ok value := by
  obtain ⟨i, made⟩ : ∃ i, ViewInstance.ofValues v row = .ok i :=
    ⟨_, by rw [ViewInstance.ofValues, if_pos whole]⟩
  obtain ⟨fits, loaded, -⟩ := ViewInstance.fits_ofValues made
  refine ⟨i, made, ?_⟩
  intro k a hk
  have ha := List.mem_of_getElem? hk
  have clean : (i.cell a).change? = none := by rw [ViewInstance.cell_ofValues made a]
  refine ⟨_, ?_, ViewInstance.get_eq_current hv fits ha⟩
  rw [Cell.current_of_clean clean, ← loaded, ← position_of_getElem? hv hk]
  exact ViewInstance.loaded_getElem? hv fits ha

/-- The query of a view lines up with its attributes, is there for every identifier where all
attributes are paths, and its rows are the instances of the view, column by column. -/
theorem query_lines_up {s : Schema} {r : CorrelationRegistry} {ds : List ViewDescriptor}
    {vs : ViewSchema} (built : ViewSchema.build s r ds = .ok vs) {name : String} {v : ViewType}
    (found : vs.view name = .ok v) (plain : r.OfEntities) {basis : QueryBasis}
    (same : basis.schema = s) (label : String) :
    (∀ q, v.query basis label = .ok q → v.LinesUp r label q ∧
      ∀ row : List Value, row.length = q.items.length →
        ∃ i, ViewInstance.ofValues v row = .ok i ∧ ∀ (k : Nat) (a : ViewAttribute),
          v.attributes[k]? = some a →
            ∃ value, row[k]? = some value ∧ i.get a.name = .ok value) ∧
    ((∀ a ∈ v.attributes, a.path?.isSome = true) → Text.isIdentifier label = true →
      ∃ q, v.query basis label = .ok q) := by
  subst same
  have managed : v.Managed := ⟨_, _, _, _, _, built, found⟩
  obtain ⟨d, described⟩ : ∃ d, build basis.schema r d = .ok v := by
    rw [ViewSchema.view] at found
    split at found
    · rename_i w hw
      cases found
      exact views_built built hw
    · cases found
  obtain ⟨known, sourced⟩ := sourced_of_build described
  constructor
  · intro q reads
    obtain ⟨first, starts, selects⟩ := Outcome.bind_ok_iff.mp reads
    have began : Reads _ r label v.entity [] first :=
      reads_start (ViewError.ofQuery_ok_iff.mp starts)
    have all := (began.foldlM plain sourced selects).linesUp
    refine ⟨all, fun row whole => ?_⟩
    exact row_reads managed.wellFormed (whole.trans all.items.length_eq.symm)
  · intro paths identifier
    have starts : Query.start basis v.entity label = .ok _ :=
      Query.withRoot_ok_iff.mpr ⟨identifier, known, rfl, rfl⟩
    have began : Reads _ r label v.entity [] _ := reads_start starts
    obtain ⟨q, selects⟩ := began.foldlM_ok plain sourced paths
    exact ⟨q, Outcome.bind_ok_iff.mpr ⟨_, ViewError.ofQuery_ok_iff.mpr starts, selects⟩⟩

/-- Documents, each between its id and its name with the name of the document of that id, whose
owner is fetched besides. -/
def ofTwins : ViewType :=
  ⟨"TwinView", "Document",
    [⟨"id", 0, .path "id", true, false, none, false, false, false, none⟩,
     ⟨"twin", 1, .correlated "documents" "id" "name" ["owner"], false, false, none, false, false,
      false, some ⟨"documents", .ofEntity "Document" "id", "", "twin", "id", "name", ["owner"]⟩⟩,
     ⟨"name", 2, .path "name", false, false, none, false, false, false, none⟩]⟩

theorem query_lines_up_twins :
    ∃ q, ofTwins.query .ofDocuments "d" = .ok q ∧
      ofTwins.LinesUp [("documents", .ofEntity "Document" "id")] "d" q := by
  have plain : CorrelationRegistry.OfEntities [("documents", .ofEntity "Document" "id")] := by
    intro provider p known
    rw [Catalog.find?] at known
    split at known
    · cases known
    split at known
    · cases known
      exact ⟨_, _, rfl⟩
    · cases known
  have built : ViewSchema.build .ofDocuments [("documents", .ofEntity "Document" "id")]
      [⟨"TwinView", "Document",
        [⟨"id", .path "id", true, false, none, false, false⟩,
         ⟨"twin", .correlated "documents" "id" "name" ["owner"], false, false, none, false, false⟩,
         ⟨"name", .path "name", false, false, none, false, false⟩]⟩] =
      .ok ⟨[("TwinView", ofTwins)]⟩ := rfl
  have found : (ViewSchema.mk [("TwinView", ofTwins)]).view "TwinView" = .ok ofTwins := rfl
  have same : QueryBasis.ofDocuments.schema = .ofDocuments := rfl
  obtain ⟨linesUp, -⟩ := query_lines_up built found plain same "d"
  have succeeds : (ofTwins.query .ofDocuments "d").isOk = true := by decide +kernel
  cases reads : ofTwins.query .ofDocuments "d" with
  | error e => simp [reads, Except.isOk, Except.toBool] at succeeds
  | ok q => exact ⟨q, rfl, (linesUp q reads).1⟩

end ViewType
end EntityQuery
