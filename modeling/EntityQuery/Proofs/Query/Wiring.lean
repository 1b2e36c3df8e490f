import EntityQuery.Proofs.Query.Extension
import Mathlib.Data.List.Nodup

/-!
# Nodes, aliases and items of a query

The forest of a query and its aliases are filled one after the other by each kind of join, and
select aliases share their names with those of the nodes. `Wired` ties nodes and aliases to
each other, `Selected` aliases and items. Both hold of every query that is built.
-/

namespace EntityQuery

/-- Nodes are numbered in order, parents first. Each is what its label names, each join alias
names one of them, and a relation leads to the entity that its attribute leads to. -/
structure Wired (schema : Schema) (nodes : List ForestNode) (scope : AliasScope) : Prop where
  numbered : ∀ (i : Nat) (n : ForestNode), nodes[i]? = some n → n.id = i
  ordered : ∀ (i : Nat) (n : ForestNode) (p : Nat),
    nodes[i]? = some n → n.parent? = some p → p < i
  named : ∀ (i : Nat) (n : ForestNode), nodes[i]? = some n → scope.find? n.label = some (.join i)
  joins : ∀ (label : String) (i : Nat), scope.find? label = some (.join i) →
    ∃ n : ForestNode, nodes[i]? = some n ∧ n.label = label
  relations : ∀ (i : Nat) (n : ForestNode) (p : Nat) (r : Relation),
    nodes[i]? = some n → n.origin = .relation p r →
      ∃ (m : ForestNode) (a : Attribute), nodes[p]? = some m ∧
        schema.attributeOf m.entity r.name = .ok a ∧ a.target? = some n.entity ∧
        r = .ofAttribute a

namespace Wired
variable {schema : Schema} {nodes : List ForestNode} {scope : AliasScope} {label : String}

theorem empty (schema : Schema) : Wired schema [] .empty where
  numbered _ _ hn := by cases hn
  ordered _ _ _ hn := by cases hn
  named _ _ hn := by cases hn
  joins label i hi := by
    rw [AliasScope.find?_empty] at hi
    cases hi
  relations _ _ _ _ hn := by cases hn

/-- The conditions of the nodes do not matter. -/
theorem bare_iff : Wired schema (nodes.map ForestNode.bare) scope ↔ Wired schema nodes scope := by
  have bare : ∀ {i : Nat} {n : ForestNode}, nodes[i]? = some n →
      (nodes.map ForestNode.bare)[i]? = some n.bare := fun hn => by simp [hn]
  have full : ∀ {i : Nat} {b : ForestNode}, (nodes.map ForestNode.bare)[i]? = some b →
      ∃ n, nodes[i]? = some n ∧ n.bare = b := fun hb => by simpa using hb
  constructor
  · intro h
    refine ⟨fun i n hn => h.numbered i n.bare (bare hn),
      fun i n p hn => h.ordered i n.bare p (bare hn), fun i n hn => h.named i n.bare (bare hn),
      fun label i hi => ?_, fun i n p r hn horigin => ?_⟩
    · obtain ⟨b, hb, hlabel⟩ := h.joins label i hi
      obtain ⟨n, hn, rfl⟩ := full hb
      exact ⟨n, hn, hlabel⟩
    · obtain ⟨b, a, hb, rest⟩ := h.relations i n.bare p r (bare hn) horigin
      obtain ⟨m, hm, rfl⟩ := full hb
      exact ⟨m, a, hm, rest⟩
  · intro h
    refine ⟨?_, ?_, ?_, fun label i hi => ?_, ?_⟩
    · intro i b hb
      obtain ⟨n, hn, rfl⟩ := full hb
      exact h.numbered i n hn
    · intro i b p hb
      obtain ⟨n, hn, rfl⟩ := full hb
      exact h.ordered i n p hn
    · intro i b hb
      obtain ⟨n, hn, rfl⟩ := full hb
      exact h.named i n hn
    · obtain ⟨n, hn, hlabel⟩ := h.joins label i hi
      exact ⟨n.bare, bare hn, hlabel⟩
    · intro i b p r hb horigin
      obtain ⟨n, hn, rfl⟩ := full hb
      obtain ⟨m, a, hm, rest⟩ := h.relations i n p r hn horigin
      exact ⟨m.bare, a, bare hm, rest⟩

theorem put_item (h : Wired schema nodes scope) (free : scope.find? label = none)
    (e : Expression) : Wired schema nodes (scope.put label (.item e)) where
  numbered := h.numbered
  ordered := h.ordered
  named i n hn := AliasScope.find?_put_of_find? free _ (h.named i n hn)
  joins other i hi := by
    by_cases same : other = label
    · rw [same, AliasScope.find?_put_self] at hi
      cases hi
    · rw [AliasScope.find?_put_of_ne _ same] at hi
      exact h.joins other i hi
  relations := h.relations

theorem ranked {t : JoinForest} (h : Wired schema t.nodes scope) : t.Ranked :=
  ⟨h.numbered, h.ordered⟩

theorem append (h : Wired schema nodes scope) (free : scope.find? label = none) {n : ForestNode}
    (number : n.id = nodes.length) (hlabel : n.label = label)
    (parent : ∀ p, n.parent? = some p → p < nodes.length)
    (relation : ∀ p r, n.origin = .relation p r → ∃ m a, nodes[p]? = some m ∧
      schema.attributeOf m.entity r.name = .ok a ∧ a.target? = some n.entity ∧
      r = .ofAttribute a) :
    Wired schema (nodes ++ [n]) (scope.put label (.join nodes.length)) := by
  have old : ∀ {i : Nat} {m : ForestNode}, nodes[i]? = some m → (nodes ++ [n])[i]? = some m := by
    intro i m hm
    obtain ⟨hi, -⟩ := List.getElem?_eq_some_iff.mp hm
    rw [List.getElem?_append_left hi, hm]
  have ranked := (h.ranked (t := ⟨nodes⟩)).append number parent
  refine ⟨ranked.numbered, ranked.ordered, ?named, ?joins, ?relations⟩
  case named =>
    intro i m hm
    rcases getElem?_append_singleton hm with hm | ⟨rfl, rfl⟩
    · exact AliasScope.find?_put_of_find? free _ (h.named i m hm)
    · rw [hlabel, AliasScope.find?_put_self]
  case joins =>
    intro other i hi
    by_cases same : other = label
    · rw [same, AliasScope.find?_put_self] at hi
      cases hi
      exact ⟨n, by simp, hlabel.trans same.symm⟩
    · rw [AliasScope.find?_put_of_ne _ same] at hi
      obtain ⟨m, hm, hlabel⟩ := h.joins other i hi
      exact ⟨m, old hm, hlabel⟩
  case relations =>
    intro i m p r hm horigin
    have known : ∃ o a, nodes[p]? = some o ∧ schema.attributeOf o.entity r.name = .ok a ∧
        a.target? = some m.entity ∧ r = .ofAttribute a := by
      rcases getElem?_append_singleton hm with hm | ⟨rfl, rfl⟩
      · exact h.relations i m p r hm horigin
      · exact relation p r horigin
    obtain ⟨o, a, ho, rest⟩ := known
    exact ⟨o, a, old ho, rest⟩

/-- No two nodes have the same label. -/
theorem labels_nodup (h : Wired schema nodes scope) : (nodes.map ForestNode.label).Nodup := by
  rw [List.nodup_iff_getElem?_ne_getElem?]
  intro i j hij hj same
  rw [List.length_map] at hj
  have hi : i < nodes.length := by omega
  rw [List.getElem?_map, List.getElem?_map, List.getElem?_eq_getElem hi,
    List.getElem?_eq_getElem hj] at same
  have hfirst := h.named i _ (List.getElem?_eq_getElem hi)
  have hsecond := h.named j _ (List.getElem?_eq_getElem hj)
  rw [Option.some.inj same, hsecond] at hfirst
  cases hfirst
  omega

end Wired

namespace Query
variable {P : Expression → Prop} {q r : Query}

/-- The aliases of items are those of the items of a query, each of one item, and what they
stand for was bound. -/
structure Selected (q : Query) : Prop where
  items : ∀ label e, q.scope.find? label = some (.item e) ↔ ⟨e, some label⟩ ∈ q.items
  once : (q.items.filterMap SelectedItem.label).Nodup
  bound : ∀ i ∈ q.items, q.bind i.expression = .ok i.expression

theorem wired_empty (basis : QueryBasis) :
    Wired (empty basis).basis.schema (empty basis).forest.nodes (empty basis).scope :=
  .empty _

theorem Follows.parent_lt {entity : String} {origin : JoinOrigin} {mode : JoinMode} {fetch : Bool}
    (h : q.Follows entity origin mode fetch) (label : String) (id : Nat) {p : Nat}
    (hp : (ForestNode.mk id label entity origin mode fetch []).parent? = some p) :
    p < q.forest.bare.length := by
  rw [JoinForest.length_bare]
  cases h with
  | root => cases hp
  | relation hn =>
    cases hp
    exact (List.getElem?_eq_some_iff.mp hn).1
  | entity hn =>
    cases hp
    exact (List.getElem?_eq_some_iff.mp hn).1

theorem Follows.attribute {entity : String} {origin : JoinOrigin} {mode : JoinMode} {fetch : Bool}
    (h : q.Follows entity origin mode fetch) {p : Nat} {s : Relation}
    (hs : origin = .relation p s) : ∃ m a, q.forest.bare[p]? = some m ∧
      q.basis.schema.attributeOf m.entity s.name = .ok a ∧ a.target? = some entity ∧
      s = .ofAttribute a := by
  cases h with
  | root => cases hs
  | relation hn ha target =>
    cases hs
    exact ⟨_, _, JoinForest.bare_getElem? hn, ha, target, rfl⟩
  | entity => cases hs

theorem Grows.wired (h : Grows P q r) (w : Wired q.basis.schema q.forest.nodes q.scope) :
    Wired r.basis.schema r.forest.nodes r.scope := by
  have w : Wired q.basis.schema q.forest.bare q.scope := Wired.bare_iff.mpr w
  refine Wired.bare_iff.mp (?_ : Wired r.basis.schema r.forest.bare r.scope)
  obtain ⟨basis, cases⟩ := h.cases
  rw [basis]
  rcases cases with ⟨label, entity, origin, mode, fetch, -, free, follows, nodes, scope, -⟩ |
    ⟨e, label, -, free, -, nodes, scope, -⟩ | ⟨e, -, nodes, scope, -⟩ | ⟨nodes, scope, -⟩
  · rw [nodes, scope, ← JoinForest.length_bare]
    exact w.append free rfl rfl (fun p hp => follows.parent_lt _ _ hp)
      (fun p s hs => follows.attribute hs)
  · rw [nodes, scope]
    exact w.put_item free e
  · rw [nodes, scope]
    exact w
  · rw [nodes, scope]
    exact w

theorem selected_empty (basis : QueryBasis) : (empty basis).Selected where
  items label e := by
    constructor
    · intro h
      cases (AliasScope.find?_empty label).symm.trans h
    · intro h
      cases h
  once := .nil
  bound i hi := by cases hi

theorem Selected.label_ne (s : q.Selected) {label : String} (free : q.scope.find? label = none) :
    label ∉ q.items.filterMap SelectedItem.label := by
  intro h
  obtain ⟨⟨e, l⟩, hi, rfl⟩ := List.mem_filterMap.mp h
  rw [(s.items label e).mpr hi] at free
  cases free

/-- The alias of a new item stands for this item, if it was free. -/
theorem Selected.items_put (s : q.Selected) {label : String} {e : Expression}
    (free : q.scope.find? label = none) (other : String) (f : Expression) :
    (q.scope.put label (.item e)).find? other = some (.item f) ↔
      ⟨f, some other⟩ ∈ q.items ++ [⟨e, some label⟩] := by
  rw [List.mem_append, List.mem_singleton]
  by_cases same : other = label
  · subst same
    rw [AliasScope.find?_put_self, ← s.items, free]
    simp [eq_comm]
  · rw [AliasScope.find?_put_of_ne _ same, s.items]
    simp [same]

theorem Binds.bind_after {e : Expression} (h : q.Binds P e) (ext : q.Extends r) :
    r.bind e = .ok e := by
  obtain ⟨source, -, hb⟩ := h
  exact ext.bind_again hb

theorem Grows.selected (h : Grows P q r) (s : q.Selected) : r.Selected := by
  have ext := Extends.of_grows h
  have kept : ∀ i ∈ q.items, r.bind i.expression = .ok i.expression :=
    fun i hi => ext.bind_again (s.bound i hi)
  have kept_append : ∀ {e label}, q.Binds P e → ∀ i ∈ q.items ++ [⟨e, label⟩],
      r.bind i.expression = .ok i.expression := by
    intro e label binds i hi
    rcases List.mem_append.mp hi with hi | hi
    · exact kept i hi
    · obtain rfl := List.mem_singleton.mp hi
      exact binds.bind_after ext
  obtain ⟨-, cases⟩ := h.cases
  rcases cases with ⟨label, entity, origin, mode, fetch, -, free, -, -, scope, items⟩ |
    ⟨e, label, -, free, binds, -, scope, items⟩ | ⟨e, binds, -, scope, items⟩ |
    ⟨-, scope, items⟩
  · refine ⟨?_, items ▸ s.once, items ▸ kept⟩
    intro other e
    rw [scope, items, ← s.items]
    by_cases same : other = label
    · simp [same, AliasScope.find?_put_self, free]
    · rw [AliasScope.find?_put_of_ne _ same]
  · refine ⟨?_, ?_, items ▸ kept_append binds⟩
    · rw [scope, items]
      exact s.items_put free
    · rw [items, List.filterMap_append]
      exact s.once.append (List.nodup_singleton label) (by simpa using s.label_ne free)
  · refine ⟨?_, ?_, items ▸ kept_append binds⟩
    · intro other f
      rw [scope, items, s.items]
      simp
    · rw [items, List.filterMap_append]
      simpa using s.once
  · refine ⟨?_, items ▸ s.once, items ▸ kept⟩
    rw [scope, items]
    exact s.items

theorem wired_of_start {basis : QueryBasis} {entity label : String} {first : Query}
    (h : start basis entity label = .ok first) (steps : List QueryStep) :
    Wired (first.run steps).basis.schema (first.run steps).forest.nodes
      (first.run steps).scope :=
  grown_keeps (I := fun q => Wired q.basis.schema q.forest.nodes q.scope)
    (fun _ _ w grows => grows.wired w) (wired_empty basis) (start_grows h fun s _ => s.all_true)

theorem selected_of_start {basis : QueryBasis} {entity label : String} {first : Query}
    (h : start basis entity label = .ok first) (steps : List QueryStep) :
    (first.run steps).Selected :=
  grown_keeps (fun _ _ s grows => grows.selected s) (selected_empty basis)
    (start_grows h fun s _ => s.all_true)

/-- Nodes, aliases and items of every query that is built fit together, and no two names are
the same. -/
theorem wired_run {basis : QueryBasis} {entity label : String} {first : Query}
    (h : start basis entity label = .ok first) (steps : List QueryStep) :
    let q := first.run steps
    Wired basis.schema q.forest.nodes q.scope ∧ q.Selected ∧
      (q.forest.nodes.map ForestNode.label).Nodup ∧
      ∀ i ∈ q.items, ∀ n ∈ q.forest.nodes, i.label ≠ some n.label := by
  intro q
  have grown : Relation.ReflTransGen (Grows fun _ => True) (empty basis) q :=
    start_grows h fun s _ => s.all_true
  have wired : Wired q.basis.schema q.forest.nodes q.scope :=
    grown_keeps (I := fun q => Wired q.basis.schema q.forest.nodes q.scope)
      (fun _ _ w grows => grows.wired w) (wired_empty basis) grown
  have selected : q.Selected := grown_keeps (fun _ _ s grows => grows.selected s)
    (selected_empty basis) grown
  rw [(Extends.of_grown grown).basis] at wired
  refine ⟨wired, selected, wired.labels_nodup, ?_⟩
  rintro ⟨e, l⟩ hi n hn rfl
  obtain ⟨i, hget⟩ := List.mem_iff_getElem?.mp hn
  have hitem := (selected.items n.label e).mpr hi
  rw [wired.named i n hget] at hitem
  cases hitem

/-- Contacts are joined, an alias is taken twice in vain, and the name is selected. -/
theorem wired_run_documents :
    let steps : List QueryStep :=
      [.join "d.contacts" "c" .left false, .join "d.owner" "c" .inner false,
        .selectByPath "c.name" (some "n"), .select (.ofPathText "n") (some "d")]
    let q := ofDocuments.run steps
    start .ofDocuments "Document" "d" = .ok ofDocuments ∧
      Wired .ofDocuments q.forest.nodes q.scope ∧ q.Selected ∧
      (q.forest.nodes.map ForestNode.label).Nodup ∧
      (∀ i ∈ q.items, ∀ n ∈ q.forest.nodes, i.label ≠ some n.label) ∧
      q.forest.nodes.map ForestNode.label = ["d", "c"] ∧
      q.items.map SelectedItem.label = [some "n"] := by
  intro steps q
  obtain ⟨wired, selected, nodup, differ⟩ := wired_run start_ofDocuments steps
  exact ⟨start_ofDocuments, wired, selected, nodup, differ, by decide +kernel, by decide +kernel⟩

end Query

end EntityQuery
