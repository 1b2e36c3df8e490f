import EntityQuery.Proofs.FreshAlias
import EntityQuery.Proofs.Query.NodePaths
import EntityQuery.Proofs.Query.TakenAliases
import EntityQuery.View.Correlation
import Mathlib.Data.List.Nodup

/-!
# What a correlation adds to a query

Joins put nodes behind those that are there and aliases beside those that are known, and leave
the rest of a query alone. A correlation over an entity joins that entity under an alias of its
own, then fetches below it, and ends with one item, which reads the joined entity.
-/

namespace EntityQuery

theorem ViewError.ofQuery_ok_iff {α : Type} {x : Except QueryError α} {a : α} :
    ViewError.ofQuery x = .ok a ↔ x = .ok a := by
  cases x with
  | error err => simp [ofQuery]
  | ok b => simp [ofQuery]

/-- Any fault but a taken alias. -/
def ViewError.Untaken : ViewError → Prop
  | .query e => e.Untaken
  | _ => True

theorem ViewError.ofQuery_untaken {α : Type} {x : Except QueryError α}
    (h : Outcome.FailsOnly QueryError.Untaken x) :
    Outcome.FailsOnly ViewError.Untaken (ofQuery x) := by
  cases x with
  | ok a => exact Outcome.failsOnly_ok a
  | error e => exact Outcome.failsOnly_error (h e rfl)

namespace Query
variable {q r : Query}

/-- `r` is `q` with more nodes at the end and more aliases. -/
structure Joined (q r : Query) : Prop where
  nodes : q.forest.nodes <+: r.forest.nodes
  scope : ∀ label t, q.scope.find? label = some t → r.scope.find? label = some t
  rest : r = { q with forest := r.forest, scope := r.scope }

namespace Joined

theorem refl (q : Query) : q.Joined q := ⟨List.prefix_rfl, fun _ _ h => h, rfl⟩

theorem node (h : q.Joined r) {i : Nat} {n : ForestNode} (hn : q.forest.nodes[i]? = some n) :
    r.forest.nodes[i]? = some n := by
  obtain ⟨more, hmore⟩ := h.nodes
  obtain ⟨inside, -⟩ := List.getElem?_eq_some_iff.mp hn
  rw [← hmore, List.getElem?_append_left inside, hn]

theorem items (h : q.Joined r) : r.items = q.items := by rw [h.rest]

theorem basis (h : q.Joined r) : r.basis = q.basis := by rw [h.rest]

end Joined

/-- `r` is `q` with the nodes, which are numbered on, and with their aliases, which were free and are
all different. -/
structure Adds (q : Query) (nodes : List ForestNode) (r : Query) : Prop where
  forest : r.forest.nodes = q.forest.nodes ++ nodes
  ids : nodes.map ForestNode.id = List.range' q.forest.size nodes.length
  labels : (nodes.map ForestNode.label).Nodup
  free : ∀ n ∈ nodes, q.scope.find? n.label = none
  scope : ∀ label t, r.scope.find? label = some t ↔
    q.scope.find? label = some t ∨ ∃ n ∈ nodes, n.label = label ∧ t = .join n.id
  rest : r = { q with forest := r.forest, scope := r.scope }

namespace Adds
variable {m : Query} {n : ForestNode} {before nodes : List ForestNode}

theorem refl (q : Query) : q.Adds [] q where
  forest := (List.append_nil _).symm
  ids := rfl
  labels := .nil
  free _ h := nomatch h
  scope label t := by simp
  rest := rfl

/-- A last node, numbered on and under an alias that was free. -/
theorem single (id : n.id = q.forest.size) (free : q.scope.find? n.label = none)
    (forest : r.forest.nodes = q.forest.nodes ++ [n])
    (scope : r.scope = q.scope.put n.label (.join q.forest.size))
    (rest : r = { q with forest := r.forest, scope := r.scope }) : q.Adds [n] r where
  forest := forest
  ids := by simp [id]
  labels := List.nodup_singleton _
  free := List.forall_mem_singleton.mpr free
  scope label t := by
    simp only [scope, List.mem_singleton, exists_eq_left, id]
    by_cases same : label = n.label
    · subst same
      rw [AliasScope.find?_put_self, free]
      simp [eq_comm]
    · rw [AliasScope.find?_put_of_ne _ same]
      exact (or_iff_left fun h => same h.1.symm).symm
  rest := rest

theorem trans (first : q.Adds before m) (second : m.Adds nodes r) : q.Adds (before ++ nodes) r where
  forest := by rw [second.forest, first.forest, List.append_assoc]
  ids := by
    have size : m.forest.size = q.forest.size + before.length := by
      rw [JoinForest.size, first.forest, List.length_append]
      rfl
    rw [List.map_append, first.ids, second.ids, size, List.length_append, List.range'_append_1]
  labels := by
    rw [List.map_append]
    refine first.labels.append second.labels fun label here there => ?_
    obtain ⟨n, old, rfl⟩ := List.mem_map.mp here
    obtain ⟨k, new, same⟩ := List.mem_map.mp there
    have known := (first.scope n.label _).mpr (Or.inr ⟨n, old, rfl, rfl⟩)
    rw [← same, second.free k new] at known
    cases known
  free n there := by
    rcases List.mem_append.mp there with old | new
    · exact first.free n old
    · rw [Option.eq_none_iff_forall_ne_some]
      intro t found
      have known := (first.scope n.label t).mpr (Or.inl found)
      rw [second.free n new] at known
      cases known
  scope label t := by
    rw [second.scope, first.scope, or_assoc]
    simp only [List.mem_append, or_and_right, exists_or]
  rest := by rw [second.rest, first.rest]

theorem keeps (h : q.Adds nodes r) {label : String} {t : AliasTarget}
    (known : q.scope.find? label = some t) : r.scope.find? label = some t :=
  (h.scope label t).mpr (Or.inl known)

theorem joined (h : q.Adds nodes r) : q.Joined r :=
  ⟨h.forest ▸ List.prefix_append _ _, fun _ _ => h.keeps, h.rest⟩

theorem joinEntity {base entity label : String} {mode : JoinMode} {on : List Condition}
    (h : q.joinEntity base entity label mode on = .ok r) :
    ∃ n parent, q.Adds [n] r ∧ Text.isIdentifier label = true ∧ n.label = label ∧
      n.entity = entity ∧ n.mode = mode ∧ n.fetch = false ∧
      q.scope.find? base = some (.join parent) ∧ n.origin = .entity parent := by
  obtain ⟨parent, -, p, bound, identifier, -, known, -, free, -, rfl⟩ := joinEntity_ok_iff.mp h
  exact ⟨_, parent, single rfl free (nodes_joinEntity ..) rfl rfl, identifier, rfl, rfl, rfl, rfl,
    known, rfl⟩

/-- What is fetched behind an alias is joined to the node of the alias. -/
theorem fetch {parent segment label : String} {i : Nat} {mode : JoinMode} {fetch : Bool}
    (identifier : Text.isIdentifier parent = true) (known : q.scope.find? parent = some (.join i))
    (h : q.join (parent ++ "." ++ segment) label mode fetch = .ok r) :
    ∃ n relation, q.Adds [n] r ∧ Text.isIdentifier label = true ∧ n.label = label ∧
      n.mode = mode ∧ n.fetch = fetch ∧ n.origin = .relation i relation ∧
      relation.name = segment := by
  obtain ⟨base, j, -, a, entity, path, hbase, -, hlabel, found, -, -, -, free, rfl⟩ :=
    join_ok_iff.mp h
  have parts := Text.headAndRest_dot (Text.ne_dot_of_isIdentifier identifier) segment
  rw [path, Text.headAndRest_dot (Text.ne_dot_of_isIdentifier hbase)] at parts
  cases parts
  cases known.symm.trans found
  exact ⟨_, .ofAttribute a, single rfl free rfl rfl rfl, hlabel, rfl, rfl, rfl, rfl, rfl⟩

end Adds

theorem selectByPath_none_ok_iff {text : String} :
    q.selectByPath text none = .ok r ↔
      ∃ p, q.path text = .ok p ∧ r = q.putItem (.path p) none := by
  rw [selectByPath, Outcome.bind_ok_iff]
  refine exists_congr fun p => and_congr_right fun hp => ?_
  have bound : q.bind (.path p) = .ok (.path p) := by
    rw [bind, bindPath_path hp]
    rfl
  rw [select_ok_iff, bound]
  simp

end Query

namespace CorrelationMapper
open Query (Adds)
variable {q r : Query}

/-- The nodes are fetched along the segments, each from the one before it. -/
inductive Fetched : Nat → List String → List ForestNode → Prop where
  | nil (parent : Nat) : Fetched parent [] []
  | cons {parent : Nat} {segment : String} {rest : List String} {n : ForestNode}
      {nodes : List ForestNode} {relation : Relation} (origin : n.origin = .relation parent relation)
      (name : relation.name = segment) (mode : n.mode = .left) (fetch : n.fetch = true)
      (below : Fetched n.id rest nodes) : Fetched parent (segment :: rest) (n :: nodes)

theorem adds_fetchSegments {parent : String} {i : Nat} {segments : List String}
    (identifier : Text.isIdentifier parent = true) (known : q.scope.find? parent = some (.join i))
    (h : fetchSegments q parent segments = .ok r) :
    ∃ nodes, q.Adds nodes r ∧ Fetched i segments nodes := by
  induction segments generalizing q parent i with
  | nil =>
    cases h
    exact ⟨[], .refl _, .nil i⟩
  | cons s rest ih =>
    obtain ⟨m, joins, h⟩ := Outcome.bind_ok_iff.mp h
    obtain ⟨n, relation, adds, named, label, mode, fetch, origin, name⟩ :=
      Adds.fetch identifier known joins
    have here := (adds.scope n.label _).mpr (Or.inr ⟨n, List.mem_cons_self, rfl, rfl⟩)
    rw [label] at here
    obtain ⟨nodes, more, below⟩ := ih named here h
    exact ⟨n :: nodes, adds.trans more, .cons origin name mode fetch below⟩

/-- All paths are fetched from the same node, whatever was fetched before. -/
theorem adds_fetchPaths {label : String} {i : Nat} {paths : List String}
    (identifier : Text.isIdentifier label = true) (known : q.scope.find? label = some (.join i))
    (h : fetchPaths label q paths = .ok r) :
    ∃ groups, q.Adds groups.flatten r ∧
      List.Forall₂ (fun path nodes => Fetched i (Text.segments path) nodes) paths groups := by
  induction paths generalizing q with
  | nil =>
    cases h
    exact ⟨[], .refl _, .nil⟩
  | cons path rest ih =>
    rw [fetchPaths, List.foldlM_cons] at h
    obtain ⟨m, first, h⟩ := Outcome.bind_ok_iff.mp h
    obtain ⟨nodes, adds, below⟩ := adds_fetchSegments identifier known first
    obtain ⟨groups, more, others⟩ := ih (adds.keeps known) h
    exact ⟨nodes :: groups, adds.trans more, .cons below others⟩

/-- The field that a path behind an alias reads; the empty path reads the node itself. -/
def fieldOf (path : String) : Option String := if path = "" then none else some path

/-- A path behind the alias of a node is bound to that node. -/
theorem path_behindAlias {label path : String} {i : Nat} {p : Path}
    (identifier : Text.isIdentifier label = true)
    (known : q.scope.find? label = some (.join i))
    (h : q.path (behindAlias label path) = .ok p) :
    p = .bound (behindAlias label path) i (fieldOf path) := by
  by_cases empty : path = ""
  · rw [behindAlias, if_pos empty] at h
    rw [behindAlias, fieldOf, if_pos empty, if_pos empty]
    exact Query.path_of_join identifier known h
  · rw [behindAlias, if_neg empty] at h
    rw [behindAlias, fieldOf, if_neg empty, if_neg empty]
    exact Query.path_field_of_join identifier known h

/-- What a successful correlation over an entity adds to a query: the entity, joined to the node of
the base, the nodes that are fetched below it, and one item, which reads the entity. -/
theorem adds_of_apply {m : CorrelationMapper} {entity name : String}
    (provider : m.provider = .ofEntity entity name) (h : m.apply q = .ok r) :
    ∃ mid parent n groups, q.Adds (n :: groups.flatten) mid ∧
      q.scope.find? m.base = some (.join parent) ∧
      n.label = q.scope.generate s!"corr_{m.name}" ∧ n.entity = entity ∧
      n.origin = .entity parent ∧ n.mode = .left ∧ n.fetch = false ∧
      List.Forall₂ (fun path nodes => Fetched n.id (Text.segments path) nodes) m.fetches groups ∧
      r = mid.putItem
        (.path (.bound (behindAlias n.label m.result) n.id (fieldOf m.result))) none := by
  rw [apply, provider] at h
  obtain ⟨builder, correlated, checked⟩ := Outcome.bind_ok_iff.mp h
  obtain ⟨-, -, unlimited⟩ := Outcome.bind_ok_iff.mp checked
  obtain ⟨fetched, fetches, selects⟩ := Outcome.bind_ok_iff.mp unlimited
  obtain ⟨joined, joins, made⟩ := Outcome.bind_ok_iff.mp correlated
  obtain ⟨n, parent, adds, identifier, label, same, mode, plain, base, origin⟩ :=
    Adds.joinEntity (ViewError.ofQuery_ok_iff.mp joins)
  cases made
  change n.label = q.scope.generate s!"corr_{m.name}" at label
  change Text.isIdentifier (q.scope.generate s!"corr_{m.name}") = true at identifier
  rw [← label] at identifier fetches selects
  have known := (adds.scope n.label _).mpr (Or.inr ⟨n, List.mem_cons_self, rfl, rfl⟩)
  obtain ⟨groups, more, below⟩ :=
    adds_fetchPaths identifier known (ViewError.ofQuery_ok_iff.mp fetches)
  obtain ⟨path, resolved, item⟩ :=
    Query.selectByPath_none_ok_iff.mp (ViewError.ofQuery_ok_iff.mp selects)
  have reads := path_behindAlias identifier (more.keeps known) resolved
  exact ⟨fetched, parent, n, groups, adds.trans more, base, label, same, origin, mode, plain, below,
    item.trans (by rw [reads])⟩

/-- The entity that a correlation joins is the first new node. -/
theorem apply_ok {m : CorrelationMapper} {entity name : String}
    (provider : m.provider = .ofEntity entity name) (h : m.apply q = .ok r) :
    ∃ mid parent n, q.Joined mid ∧ q.scope.find? m.base = some (.join parent) ∧
      mid.forest.nodes[q.forest.size]? = some n ∧
      n.label = q.scope.generate s!"corr_{m.name}" ∧ n.entity = entity ∧
      n.origin = .entity parent ∧ n.mode = .left ∧
      r = mid.putItem
        (.path (.bound (behindAlias n.label m.result) q.forest.size (fieldOf m.result))) none := by
  obtain ⟨mid, parent, n, groups, adds, base, label, same, origin, mode, -, -, rfl⟩ :=
    adds_of_apply provider h
  have id : n.id = q.forest.size := (List.cons.inj adds.ids).1
  have there : mid.forest.nodes[q.forest.size]? = some n := by
    rw [adds.forest, JoinForest.size, List.getElem?_append_right (Nat.le_refl _), Nat.sub_self]
    rfl
  exact ⟨mid, parent, n, adds.joined, base, there, label, same, origin, mode, by rw [id]⟩

/-! No alias that a correlation brings in is taken. -/

open Outcome (FailsOnly failsOnly_ok failsOnly_error failsOnly_bind failsOnly_foldlM)
open QueryError (Untaken)

theorem fetchSegments_untaken (q : Query) (parent : String) (segments : List String) :
    FailsOnly Untaken (fetchSegments q parent segments) := by
  induction segments generalizing q parent with
  | nil => exact failsOnly_ok q
  | cons s rest ih =>
    have free := q.scope.isAvailable_generate s!"{parent}_{s}"
    refine failsOnly_bind (Query.untaken_of_refuses (Query.join_refuses _ _ _ _) free) ?_
    exact fun joined _ => ih joined _

theorem fetchPaths_untaken (label : String) (q : Query) (paths : List String) :
    FailsOnly Untaken (fetchPaths label q paths) :=
  failsOnly_foldlM (fun q _ _ => fetchSegments_untaken q label _) q

theorem apply_untaken {m : CorrelationMapper} {entity name : String}
    (provider : m.provider = .ofEntity entity name) (q : Query) :
    FailsOnly ViewError.Untaken (m.apply q) := by
  rw [apply, provider]
  have free := q.scope.isAvailable_generate s!"corr_{m.name}"
  refine failsOnly_bind (failsOnly_bind (ViewError.ofQuery_untaken ?_) fun joined _ => ?_) ?_
  · exact Query.untaken_of_refuses (Query.joinEntity_refuses _ _ _ _ _) free
  · exact failsOnly_ok _
  intro builder _
  refine failsOnly_bind ?_ fun _ _ => ?_
  · rw [checkLimit]
    split
    · exact failsOnly_ok ()
    · exact failsOnly_error trivial
  refine failsOnly_bind (ViewError.ofQuery_untaken (fetchPaths_untaken _ _ _)) fun _ _ => ?_
  exact ViewError.ofQuery_untaken (Query.selectByPath_untaken _)

/-- A correlation over an entity is never refused for an alias that is taken, and only adds to a
query: the entity, joined under an alias that was free, a chain of nodes for each path to fetch,
which starts at the entity, and one item, which reads the entity. -/
theorem apply_adds {m : CorrelationMapper} {entity name : String}
    (provider : m.provider = .ofEntity entity name) (q : Query) :
    (∀ label, m.apply q ≠ .error (.query (.aliasTaken label))) ∧
      ∀ r, m.apply q = .ok r → ∃ parent n groups,
        q.scope.find? m.base = some (.join parent) ∧
          n.entity = entity ∧ n.origin = .entity parent ∧ n.mode = .left ∧ n.fetch = false ∧
          List.Forall₂ (fun path nodes => Fetched n.id (Text.segments path) nodes) m.fetches
            groups ∧
          q.Adds (n :: groups.flatten) { r with items := q.items } ∧
          r.items = q.items ++
            [⟨.path (.bound (behindAlias n.label m.result) n.id (fieldOf m.result)), none⟩] := by
  refine ⟨fun label failed => ?_, fun r h => ?_⟩
  · cases apply_untaken provider q _ failed
  obtain ⟨mid, parent, n, groups, adds, base, -, same, origin, mode, plain, below, rfl⟩ :=
    adds_of_apply provider h
  have items : mid.items = q.items := adds.joined.items
  have added : ∀ e, ({ mid.putItem e none with items := q.items } : Query) = mid := by
    intro e
    rw [← items]
    rfl
  refine ⟨parent, n, groups, base, same, origin, mode, plain, below, ?_, ?_⟩
  · rwa [added]
  · rw [← items]
    rfl

/-- The aliases that look generated are taken: the second document is joined under the first number
that is free, and its owner is fetched three times. -/
theorem apply_adds_twin :
    let s : Schema := ⟨[("Document", ⟨"Document", "document", "id",
        [.basic "id", .basic "twin", .association "owner" "Person"]⟩),
      ("Person", ⟨"Person", "person", "id",
        [.basic "id", .plural "documents" .list "Document"]⟩)]⟩
    let q := ({ Query.ofDocuments with basis := { QueryBasis.ofDocuments with schema := s } }).run
      [.join "d.owner" "corr_twin" .left false,
        .selectByPath "corr_twin.id" (some "corr_twin_1_owner")]
    let m : CorrelationMapper := ⟨"twins", .ofEntity "Document" "id", "d", "twin", "twin", "id",
      ["owner", "owner.documents", "owner"]⟩
    m.provider = .ofEntity "Document" "id" ∧ ∃ r n groups, m.apply q = .ok r ∧
      List.Forall₂ (fun path nodes => Fetched n.id (Text.segments path) nodes) m.fetches groups ∧
      q.Adds (n :: groups.flatten) { r with items := q.items } ∧
      (n :: groups.flatten).map (fun k => (k.id, k.label)) =
        [(2, "corr_twin_1"), (3, "corr_twin_1_owner_1"), (4, "corr_twin_1_owner_2"),
          (5, "corr_twin_1_owner_2_documents"), (6, "corr_twin_1_owner_3")] := by
  intro s q m
  have provider : m.provider = .ofEntity "Document" "id" := rfl
  have run : (m.apply q).toOption.map (fun r =>
      (r.forest.nodes.drop 2).map fun k => (k.id, k.label)) =
        some [(2, "corr_twin_1"), (3, "corr_twin_1_owner_1"), (4, "corr_twin_1_owner_2"),
          (5, "corr_twin_1_owner_2_documents"), (6, "corr_twin_1_owner_3")] := by
    decide +kernel
  obtain ⟨-, adds⟩ := apply_adds provider q
  cases applied : m.apply q with
  | error e =>
    rw [applied] at run
    cases run
  | ok r =>
    obtain ⟨-, n, groups, -, -, -, -, -, below, added, -⟩ := adds r applied
    refine ⟨provider, r, n, groups, rfl, below, added, ?_⟩
    have size : q.forest.nodes.length = 2 := by decide +kernel
    rw [applied] at run
    have drop : r.forest.nodes.drop 2 = n :: groups.flatten := by
      rw [← size]
      exact added.forest ▸ List.drop_left
    rw [← drop]
    exact Option.some.inj run

end CorrelationMapper
end EntityQuery
