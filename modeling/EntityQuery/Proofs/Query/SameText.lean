import EntityQuery.Proofs.Query.Extension
import EntityQuery.Query.Text

/-!
# Queries of one text

Rendering reads the nodes of a forest without their conditions. Two queries that differ only
in conditions, groups and orders have the same text if these have the same texts.
-/

namespace EntityQuery

namespace Renderer

/-- The renderer that sees the nodes alone. -/
def stripped (r : Renderer) : Renderer := { r with forest := r.forest.stripped }

variable (r : Renderer)

theorem path_stripped (p : Path) : r.stripped.path p = r.path p := by
  rw [path_eq, path_eq]
  refine congrArg (_ >>= ·) (funext fun p => ?_)
  rw [written, written]
  cases p.node with
  | none => rfl
  | some i =>
    show (r.forest.stripped.node i >>= fun n => .ok (r.stripped.boundPath p n)) =
      (r.forest.node i >>= fun n => .ok (r.boundPath p n))
    rw [JoinForest.node_stripped]
    cases r.forest.node i <;> rfl

theorem render_stripped (e : Expression) : r.stripped.render e = r.render e := by
  induction e using Expression.byParts with
  | path p => exact r.path_stripped p
  | call f as ih =>
    have texts : r.stripped.renderList as = r.renderList as := by
      rw [renderList_eq, renderList_eq]
      exact Outcome.mapM_congr ih
    have others : r.stripped.renderRest as = r.renderRest as := by
      rw [renderRest_eq, renderRest_eq]
      exact Outcome.mapM_congr fun a ha => ih a (List.mem_of_mem_tail ha)
    rw [render, render, texts, others]
    cases CallForm.ofFunction f with
    | outer =>
      cases as with
      | nil => rfl
      | cons a rest => exact ih a List.mem_cons_self
    | dynamic => rfl
    | ordinary => rfl
  | parameter n v => rfl
  | element p i => rfl
  | literal l => rfl
  | subquery s e a js cs selected sides =>
    have texts : r.stripped.renderEqualities cs = r.renderEqualities cs := by
      rw [renderEqualities_eq, renderEqualities_eq]
      refine Outcome.mapM_congr fun c hc => ?_
      rw [renderEquality, renderEquality, (sides c hc).1, (sides c hc).2]
    rw [render, render, selected, texts]

end Renderer

namespace SizeExpansion

/-- The expansion that sees the nodes alone. -/
def stripped (w : SizeExpansion) : SizeExpansion := { w with forest := w.forest.stripped }

variable (w : SizeExpansion)

theorem size_stripped (p : Path) (i : Nat) : w.stripped.size p i = w.size p i := by
  show (w.forest.stripped.node i >>= _) = _
  rw [JoinForest.node_stripped, size]
  cases w.forest.node i <;> rfl

theorem expand_stripped (e : Expression) : w.stripped.expand e = w.expand e := by
  induction e using Expression.byParts with
  | call f as ih =>
    rw [expand, expand, expandList_eq, expandList_eq, Outcome.mapM_congr ih]
    cases sizeArgument? f as with
    | some found => exact w.size_stripped found.1 found.2
    | none => rfl
  | _ => rfl

end SizeExpansion

namespace Query
variable {q r : Query}

/-- Queries that differ in their conditions, groups and orders at most. -/
structure Alike (q r : Query) : Prop where
  basis : r.basis = q.basis
  scope : r.scope = q.scope
  parameters : r.parameters = q.parameters
  nodes : r.forest.bare = q.forest.bare

namespace Alike

theorem transform (h : q.Alike r) (clause : Clause) (e : Expression) :
    r.sizeExpansion.transform clause e = q.sizeExpansion.transform clause e := by
  have same : r.sizeExpansion.stripped = q.sizeExpansion.stripped := by
    simp only [sizeExpansion, SizeExpansion.stripped, JoinForest.stripped, h.basis, h.scope,
      h.nodes]
  rw [SizeExpansion.transform, SizeExpansion.transform, ← SizeExpansion.expand_stripped, same,
    SizeExpansion.expand_stripped]

theorem render (h : q.Alike r) (e : Expression) : r.renderer.render e = q.renderer.render e := by
  have same : r.renderer.stripped = q.renderer.stripped := by
    simp only [renderer, Renderer.stripped, JoinForest.stripped, h.basis, h.scope, h.parameters,
      h.nodes]
  rw [← Renderer.render_stripped, same, Renderer.render_stripped]

theorem clauseText (h : q.Alike r) (clause : Clause) (e : Expression) :
    r.clauseText clause e = q.clauseText clause e := by
  rw [Query.clauseText, Query.clauseText, h.transform]
  exact congrArg (_ >>= ·) (funext h.render)

theorem predicateText (h : q.Alike r) (clause : Clause) (p : Predicate) :
    r.predicateText clause p = q.predicateText clause p := by
  have conditions : r.renderer.renderCondition = q.renderer.renderCondition := by
    funext c
    rw [Renderer.renderCondition, Renderer.renderCondition, h.render, h.render]
  rw [Query.predicateText, Query.predicateText, conditions, funext (h.transform clause)]

theorem itemText (h : q.Alike r) (i : SelectedItem) : r.itemText i = q.itemText i := by
  rw [Query.itemText, Query.itemText, h.clauseText]

theorem orderText (h : q.Alike r) (o : Expression × Bool) : r.orderText o = q.orderText o := by
  rw [Query.orderText, Query.orderText, h.clauseText]

theorem marked (h : q.Alike r) (label : String) : r.marked label = q.marked label := by
  rw [Query.marked, Query.marked, h.basis]

theorem selectText (h : q.Alike r) (items : r.items = q.items) :
    r.selectText = q.selectText := by
  have labels : r.forest.roots.map (fun n => r.marked n.label) =
      q.forest.roots.map (fun n => q.marked n.label) := by
    have bare : ∀ s : Query, s.forest.roots.map (fun n => s.marked n.label) =
        s.forest.stripped.roots.map (fun n => s.marked n.label) := by
      intro s
      rw [JoinForest.roots_stripped, List.map_map]
      rfl
    rw [bare, bare, JoinForest.stripped, h.nodes, funext h.marked]
    rfl
  rw [Query.selectText, Query.selectText, labels, items, funext h.itemText]

theorem node (h : q.Alike r) (i : Nat) :
    (r.forest.node i).map ForestNode.bare = (q.forest.node i).map ForestNode.bare := by
  rw [← JoinForest.node_stripped, ← JoinForest.node_stripped, JoinForest.stripped, h.nodes]
  rfl

theorem rootAbove (h : q.Alike r) (i : Nat) : r.forest.rootAbove i = q.forest.rootAbove i := by
  rw [JoinForest.rootAbove, ← JoinForest.rootWithin_stripped, JoinForest.stripped, h.nodes]
  exact JoinForest.rootWithin_stripped _ _ _

theorem joinedText (h : q.Alike r) {m n : ForestNode} (same : n.bare = m.bare) :
    r.joinedText n = q.joinedText m := by
  obtain ⟨-, -, entity, origin, -, -⟩ := ForestNode.bare_eq_iff.mp same
  rw [Query.joinedText, Query.joinedText, origin, entity]
  cases m.origin with
  | root => rfl
  | entity parent => rfl
  | relation parent s =>
    have labelled : ∀ t : Query, (t.forest.node parent >>= fun p =>
        (.ok s!"{t.marked p.label}.{s.name}" : Except QueryError String)) =
        ((t.forest.node parent).map ForestNode.bare >>= fun p =>
          .ok s!"{t.marked p.label}.{s.name}") := by
      intro t
      cases t.forest.node parent <;> rfl
    refine (labelled r).trans (Eq.trans ?_ (labelled q).symm)
    rw [h.node]
    refine congrArg (_ >>= ·) (funext fun p => ?_)
    rw [h.marked]

theorem joinUnder (h : q.Alike r) (root : Nat) {m n : ForestNode} (same : n.bare = m.bare)
    (on : n.on.mapM (q.predicateText .join) = m.on.mapM (q.predicateText .join)) :
    r.joinUnder root n = q.joinUnder root m := by
  obtain ⟨id, label, -, origin, mode, fetch⟩ := ForestNode.bare_eq_iff.mp same
  have isRoot : n.isRoot = m.isRoot := by rw [ForestNode.isRoot, origin, ForestNode.isRoot]
  have joinText : r.joinText n = q.joinText m := by
    rw [Query.joinText, Query.joinText, h.joinedText same, funext (h.predicateText .join), on,
      h.marked, label, mode, fetch]
  rw [Query.joinUnder, Query.joinUnder, isRoot, id, h.rootAbove, joinText]

end Alike

/-- The texts of the conditions at each node, of the conditions, the groups and the orders are
the same. -/
structure SameTexts (q r : Query) : Prop where
  basis : r.basis = q.basis
  scope : r.scope = q.scope
  parameters : r.parameters = q.parameters
  items : r.items = q.items
  nodes : List.Forall₂ (fun m n : ForestNode => n.bare = m.bare ∧
    n.on.mapM (q.predicateText .join) = m.on.mapM (q.predicateText .join))
    q.forest.nodes r.forest.nodes
  conditions : r.conditions.mapM (q.predicateText .restriction) =
    q.conditions.mapM (q.predicateText .restriction)
  groups : r.groups.mapM (q.clauseText .groupBy) = q.groups.mapM (q.clauseText .groupBy)
  orders : r.orders.mapM q.orderText = q.orders.mapM q.orderText

namespace SameTexts

theorem alike (h : q.SameTexts r) : q.Alike r where
  basis := h.basis
  scope := h.scope
  parameters := h.parameters
  nodes := by
    have each := h.nodes
    rw [JoinForest.bare, JoinForest.bare]
    generalize q.forest.nodes = ms at each
    generalize r.forest.nodes = ns at each
    induction each with
    | nil => rfl
    | cons same _ ih => rw [List.map_cons, List.map_cons, same.1, ih]

theorem fromText (h : q.SameTexts r) : r.fromText = q.fromText := by
  have joins : ∀ root, r.forest.nodes.mapM (r.joinUnder root) =
      q.forest.nodes.mapM (q.joinUnder root) := by
    intro root
    refine (Outcome.mapM_congr₂ ?_).symm
    exact h.nodes.imp fun m n ⟨same, on⟩ => (h.alike.joinUnder root same on).symm
  have roots : ∀ root : ForestNode, r.rootText root = q.rootText root := by
    intro root
    rw [rootText, rootText, joins, h.alike.marked]
  have bare : ∀ s : Query, s.forest.roots.mapM s.rootText =
      s.forest.stripped.roots.mapM s.rootText := by
    intro s
    rw [JoinForest.roots_stripped, List.mapM_map]
    rfl
  rw [Query.fromText, Query.fromText, bare, bare, JoinForest.stripped, h.alike.nodes, funext roots]
  rfl

theorem text (h : q.SameTexts r) : r.text = q.text := by
  rw [Query.text, Query.text, h.alike.selectText h.items, h.fromText,
    funext (h.alike.predicateText .restriction), h.conditions,
    funext (h.alike.clauseText .groupBy), h.groups, funext h.alike.orderText, h.orders]

end SameTexts

end Query

end EntityQuery
