import EntityQuery.Proofs.Query.Growth

/-!
# What stays when a query grows

Nodes keep all but their conditions, and aliases keep what they name. A text that was resolved
is resolved to the same path ever after, and what was bound once is bound to itself.
-/

namespace EntityQuery

namespace Query
variable {P : Expression → Prop} {q r : Query}

theorem bare_putNode (label entity : String) (origin : JoinOrigin) (mode : JoinMode)
    (fetch : Bool) : (q.putNode label entity origin mode fetch).forest.bare =
      q.forest.bare ++ [⟨q.forest.size, label, entity, origin, mode, fetch, []⟩] := by
  simp [putNode, JoinForest.append, JoinForest.bare, ForestNode.bare]

theorem bare_putConditions {i : Nat} {n : ForestNode} (hn : q.forest.nodes[i]? = some n)
    (on : List Predicate) : (q.putConditions i n on).forest.bare = q.forest.bare := by
  obtain ⟨hi, rfl⟩ := List.getElem?_eq_some_iff.mp hn
  have same : q.forest.bare = q.forest.bare.set i (q.forest.nodes[i]).bare := by
    simp [JoinForest.bare, ← List.map_set]
  conv_rhs => rw [same]
  simp [putConditions, JoinForest.bare, ForestNode.bare, List.map_set]

/-- Nodes, aliases and items change together or not at all. -/
theorem Grows.cases (h : Grows P q r) : r.basis = q.basis ∧
    ((∃ label entity origin mode fetch, Text.isIdentifier label = true ∧
        q.scope.find? label = none ∧ q.Follows entity origin mode fetch ∧
        r.forest.bare = q.forest.bare ++ [⟨q.forest.size, label, entity, origin, mode, fetch, []⟩] ∧
        r.scope = q.scope.put label (.join q.forest.size) ∧ r.items = q.items) ∨
      (∃ e label, Text.isIdentifier label = true ∧ q.scope.find? label = none ∧ q.Binds P e ∧
        r.forest.bare = q.forest.bare ∧ r.scope = q.scope.put label (.item e) ∧
        r.items = q.items ++ [⟨e, some label⟩]) ∨
      (∃ e, q.Binds P e ∧ r.forest.bare = q.forest.bare ∧ r.scope = q.scope ∧
        r.items = q.items ++ [⟨e, none⟩]) ∨
      (r.forest.bare = q.forest.bare ∧ r.scope = q.scope ∧ r.items = q.items)) := by
  cases h with
  | node identifier free follows =>
    exact ⟨rfl, Or.inl ⟨_, _, _, _, _, identifier, free, follows, bare_putNode .., rfl, rfl⟩⟩
  | conditions hn joined binds =>
    exact ⟨rfl, Or.inr (Or.inr (Or.inr ⟨bare_putConditions hn _, rfl, rfl⟩))⟩
  | item binds => exact ⟨rfl, Or.inr (Or.inr (Or.inl ⟨_, binds, rfl, rfl, rfl⟩))⟩
  | labelled identifier free binds =>
    exact ⟨rfl, Or.inr (Or.inl ⟨_, _, identifier, free, binds, rfl, rfl, rfl⟩)⟩
  | restriction binds => exact ⟨rfl, Or.inr (Or.inr (Or.inr ⟨rfl, rfl, rfl⟩))⟩
  | group binds => exact ⟨rfl, Or.inr (Or.inr (Or.inr ⟨rfl, rfl, rfl⟩))⟩
  | order binds => exact ⟨rfl, Or.inr (Or.inr (Or.inr ⟨rfl, rfl, rfl⟩))⟩
  | parameter value identifier => exact ⟨rfl, Or.inr (Or.inr (Or.inr ⟨rfl, rfl, rfl⟩))⟩
  | skip n => exact ⟨rfl, Or.inr (Or.inr (Or.inr ⟨rfl, rfl, rfl⟩))⟩
  | take n => exact ⟨rfl, Or.inr (Or.inr (Or.inr ⟨rfl, rfl, rfl⟩))⟩

/-- `r` has all nodes of `q` up to their conditions, and all its aliases. -/
structure Extends (q r : Query) : Prop where
  basis : r.basis = q.basis
  nodes : q.forest.bare <+: r.forest.bare
  scope : ∀ label t, q.scope.find? label = some t → r.scope.find? label = some t

namespace Extends

theorem refl (q : Query) : q.Extends q := ⟨rfl, List.prefix_rfl, fun _ _ h => h⟩

theorem trans {m : Query} (first : q.Extends m) (second : m.Extends r) : q.Extends r :=
  ⟨second.basis.trans first.basis, first.nodes.trans second.nodes,
    fun label t h => second.scope label t (first.scope label t h)⟩

theorem putNode {label : String} (free : q.scope.find? label = none) (entity : String)
    (origin : JoinOrigin) (mode : JoinMode) (fetch : Bool) :
    q.Extends (q.putNode label entity origin mode fetch) :=
  ⟨rfl, bare_putNode label entity origin mode fetch ▸ List.prefix_append _ _,
    fun _ _ h => AliasScope.find?_put_of_find? free _ h⟩

theorem putConditions {i : Nat} {n : ForestNode} (hn : q.forest.nodes[i]? = some n)
    (on : List Predicate) : q.Extends (q.putConditions i n on) :=
  ⟨rfl, bare_putConditions hn on ▸ List.prefix_rfl, fun _ _ h => h⟩

theorem of_grows (h : Grows P q r) : q.Extends r := by
  obtain ⟨basis, cases⟩ := h.cases
  rcases cases with ⟨label, entity, origin, mode, fetch, -, free, -, nodes, scope, -⟩ |
    ⟨e, label, -, free, -, nodes, scope, -⟩ | ⟨e, -, nodes, scope, -⟩ | ⟨nodes, scope, -⟩
  · refine ⟨basis, nodes ▸ List.prefix_append _ _, ?_⟩
    intro other t h
    rw [scope]
    exact AliasScope.find?_put_of_find? free _ h
  · refine ⟨basis, nodes ▸ List.prefix_rfl, ?_⟩
    intro other t h
    rw [scope]
    exact AliasScope.find?_put_of_find? free _ h
  · exact ⟨basis, nodes ▸ List.prefix_rfl, fun _ _ h => scope ▸ h⟩
  · exact ⟨basis, nodes ▸ List.prefix_rfl, fun _ _ h => scope ▸ h⟩

theorem of_grown (h : Relation.ReflTransGen (Grows P) q r) : q.Extends r :=
  grown_keeps (I := q.Extends) (fun _ _ h grows => h.trans (of_grows grows)) (refl q) h

theorem of_step {s : QueryStep} (h : q.step s = .ok r) : q.Extends r :=
  of_grown (step_grows s.all_true h)

theorem run (q : Query) (steps : List QueryStep) : q.Extends (q.run steps) :=
  of_grown (run_grows q fun s _ => s.all_true)

theorem of_start {basis : QueryBasis} {entity label : String}
    (h : start basis entity label = .ok r) : (empty basis).Extends r :=
  of_grows (withRoot_grows (P := fun _ => True) h)

/-- Every query that is built has the basis that it was started with. -/
theorem basis_run {basis : QueryBasis} {entity label : String}
    (h : start basis entity label = .ok q) (steps : List QueryStep) :
    (q.run steps).basis = basis :=
  ((of_start h).trans (run q steps)).basis

theorem node (h : q.Extends r) {i : Nat} {n : ForestNode} (hn : q.forest.nodes[i]? = some n) :
    ∃ m, r.forest.nodes[i]? = some m ∧ m.bare = n.bare := by
  obtain ⟨rest, hrest⟩ := h.nodes
  have hbare := JoinForest.bare_getElem? hn
  obtain ⟨hi, hget⟩ := List.getElem?_eq_some_iff.mp hbare
  refine JoinForest.exists_of_bare ?_
  rw [← hrest, List.getElem?_append_left hi, hbare]

theorem path (h : q.Extends r) {text : String} {p : Path} (hp : q.path text = .ok p) :
    r.path text = .ok p := by
  obtain ⟨hcheck, resolves⟩ := path_ok_iff.mp hp
  refine path_ok_iff.mpr ⟨hcheck, ?_⟩
  cases resolves with
  | node whole hfind hn =>
    obtain ⟨m, hm, -⟩ := h.node hn
    exact .node whole (h.scope _ _ hfind) hm
  | @field head field i n attributes parts hfind hn along =>
    obtain ⟨m, hm, same⟩ := h.node hn
    have entity : m.entity = n.entity := (ForestNode.bare_eq_iff.mp same).2.2.1
    have onward : r.basis.schema.attributesAlong m.entity field = .ok attributes := by
      rw [h.basis, entity, along]
    exact .field parts (h.scope _ _ hfind) hm onward
  | item whole hfind => exact .item whole (h.scope _ _ hfind)

end Extends

/-- A free path is bound to what its text is resolved to, with its own marks. -/
theorem bindPath_free {p b : Path} (free : p.node = none) :
    q.bindPath p = .ok b ↔
      ∃ a, q.path p.text = .ok a ∧ b = { a with keyed := p.keyed, wrapped := p.wrapped } := by
  rw [bindPath, free]
  show (q.path p.text >>= fun a => .ok { a with keyed := p.keyed, wrapped := p.wrapped }) = _ ↔ _
  rw [Outcome.bind_ok_iff]
  simp [eq_comm]

theorem bindPath_bound {p b : Path} {i : Nat} (bound : p.node = some i) :
    q.bindPath p = .ok b ↔ b = p := by
  rw [bindPath, bound]
  simp [eq_comm]

/-- Binding keeps the marks of a path. -/
theorem bindPath_marks {p b : Path} (h : q.bindPath p = .ok b) :
    b.keyed = p.keyed ∧ b.wrapped = p.wrapped := by
  cases hnode : p.node with
  | some i =>
    obtain rfl := (bindPath_bound hnode).mp h
    exact ⟨rfl, rfl⟩
  | none =>
    obtain ⟨a, -, rfl⟩ := (bindPath_free hnode).mp h
    exact ⟨rfl, rfl⟩

/-- A path that was bound once is bound to itself, also after the query has grown. -/
theorem Extends.bindPath_again (h : q.Extends r) {p b : Path} (hb : q.bindPath p = .ok b) :
    r.bindPath b = .ok b := by
  cases hnode : b.node with
  | some i => exact (bindPath_bound hnode).mpr rfl
  | none =>
    cases hp : p.node with
    | some i =>
      obtain rfl := (bindPath_bound hp).mp hb
      rw [hp] at hnode
      cases hnode
    | none =>
      obtain ⟨a, ha, rfl⟩ := (bindPath_free hp).mp hb
      obtain ⟨text, -, -, free⟩ := path_unmarked ha
      refine (bindPath_free hnode).mpr ⟨a, ?_, rfl⟩
      show r.path a.text = .ok a
      rw [text, h.path ha]

/-- Only a path is bound to a path. -/
theorem path_of_bind {e : Expression} {p : Path} (h : q.bind e = .ok (.path p)) :
    ∃ a, e = .path a ∧ q.bindPath a = .ok p := by
  cases e with
  | path a =>
    obtain ⟨b, hb, same⟩ := Outcome.bind_ok_iff.mp h
    cases same
    exact ⟨a, rfl, hb⟩
  | call f as =>
    obtain ⟨bs, same, -⟩ := bind_call_ok h
    cases same
  | parameter => cases h
  | element => cases h
  | literal => cases h
  | subquery => cases h

/-- The argument of a call has the marks of the call when it is bound. -/
theorem marked_of_bind {w : Wrapping} {a b : Expression} (h : q.bind (a.marked w) = .ok b) :
    b.marked w = b := by
  cases a with
  | path p =>
    obtain ⟨c, hc, h⟩ := Outcome.bind_ok_iff.mp h
    cases h
    obtain ⟨keyed, wrapped⟩ := bindPath_marks hc
    obtain ⟨segments, node, field, k, w'⟩ := c
    cases w <;> simp_all [Expression.marked, Wrapping.mark]
  | call f as =>
    obtain ⟨bs, rfl, -⟩ := bind_call_ok h
    rfl
  | parameter n v => cases h; rfl
  | element p i => cases h; rfl
  | literal l => cases h; rfl
  | subquery s e a js cs => cases h; rfl

theorem Extends.bind_path_again (h : q.Extends r) {p : Path} {b : Expression}
    (hb : q.bind (.path p) = .ok b) : r.bind b = .ok b := by
  obtain ⟨c, hc, hb⟩ := Outcome.bind_ok_iff.mp hb
  cases hb
  rw [bind, h.bindPath_again hc]
  rfl

/-- What was bound once is bound to itself, also after the query has grown. -/
theorem Extends.bind_again (h : q.Extends r) {e b : Expression} (hb : q.bind e = .ok b) :
    r.bind b = .ok b := by
  induction e using Expression.byParts generalizing b with
  | path p => exact h.bind_path_again hb
  | call f as ih =>
    obtain ⟨bs, rfl, hbs⟩ := bind_call_ok hb
    have again : ∀ c ∈ bs, r.bind (c.marked (.ofFunction f)) = .ok c := by
      intro c hc
      obtain ⟨a, ha, hac⟩ := Outcome.mem_of_mapM_ok hbs hc
      rw [marked_of_bind hac]
      cases a with
      | path p => exact h.bind_path_again hac
      | _ => exact ih _ ha hac
    rw [bind, bindArguments_eq, Outcome.mapM_ok_iff.mpr (List.forall₂_same.mpr again)]
    rfl
  | parameter n v => cases hb; rfl
  | element p i => cases hb; rfl
  | literal l => cases hb; rfl
  | subquery s e a js cs => cases hb; rfl

/-! What is bound is bound to the same in a query that has grown. -/

theorem Extends.bindPath (h : q.Extends r) {p b : Path} (hb : q.bindPath p = .ok b) :
    r.bindPath p = .ok b := by
  cases hp : p.node with
  | some i =>
    obtain rfl := (bindPath_bound hp).mp hb
    exact (bindPath_bound hp).mpr rfl
  | none =>
    obtain ⟨a, ha, rfl⟩ := (bindPath_free hp).mp hb
    exact (bindPath_free hp).mpr ⟨a, h.path ha, rfl⟩

theorem Extends.bind_path (h : q.Extends r) {p : Path} {b : Expression}
    (hb : q.bind (.path p) = .ok b) : r.bind (.path p) = .ok b := by
  obtain ⟨c, hc, hb⟩ := Outcome.bind_ok_iff.mp hb
  exact Outcome.bind_ok_iff.mpr ⟨c, h.bindPath hc, hb⟩

theorem Extends.bind (h : q.Extends r) {e b : Expression} (hb : q.bind e = .ok b) :
    r.bind e = .ok b := by
  induction e using Expression.byParts generalizing b with
  | path p => exact h.bind_path hb
  | call f as ih =>
    obtain ⟨bs, rfl, hbs⟩ := bind_call_ok hb
    have same := Outcome.forall₂_of_mapM_ok
      (R := fun a b => r.bind (a.marked (.ofFunction f)) = .ok b) hbs fun a ha b hab => by
        cases a with
        | path p => exact h.bind_path hab
        | _ => exact ih _ ha hab
    rw [Query.bind, bindArguments_eq, Outcome.mapM_ok_iff.mpr same]
    rfl
  | parameter n v => exact hb
  | element p i => exact hb
  | literal l => exact hb
  | subquery s e a js cs => exact hb

theorem Extends.readCondition (h : q.Extends r) {c : Condition} {p : Predicate}
    (hp : q.readCondition c = .ok p) : r.readCondition c = .ok p := by
  obtain ⟨source, hsource, hp⟩ := Outcome.bind_ok_iff.mp hp
  obtain ⟨left, hleft, hp⟩ := Outcome.bind_ok_iff.mp hp
  obtain ⟨right, hright, hp⟩ := Outcome.bind_ok_iff.mp hp
  exact Outcome.bind_ok_iff.mpr ⟨source, hsource, Outcome.bind_ok_iff.mpr
    ⟨left, h.bind hleft, Outcome.bind_ok_iff.mpr ⟨right, h.bind hright, hp⟩⟩⟩

end Query
end EntityQuery
