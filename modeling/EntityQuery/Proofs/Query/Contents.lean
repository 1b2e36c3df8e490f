import EntityQuery.Proofs.Query.Wiring
import EntityQuery.Query.Text

/-!
# What a query holds

An expression of free paths, calls, named parameters and literals is bound to one in which
each path is known: it reads a node, under its label, or names an alias of an item. When a
query grows, what it held stays and what is new was bound; so it never holds anything else.
-/

namespace EntityQuery

namespace Expression

/-- Made of paths in `K`, calls, named parameters and literals. -/
inductive Built (K : Path → Prop) : Expression → Prop
  | path {p : Path} (h : K p) : Built K (.path p)
  | call {f : String} {as : List Expression} (h : ∀ a ∈ as, Built K a) : Built K (.call f as)
  | parameter (name : String) (value : Option Value) : Built K (.parameter (some name) value)
  | literal (l : Literal) : Built K (.literal l)

/-- No path is bound yet. -/
def Plain (e : Expression) : Prop := e.Built fun p => p.node = none

theorem Built.mono {K L : Path → Prop} (h : ∀ p, K p → L p) {e : Expression} (built : e.Built K) :
    e.Built L := by
  induction built with
  | path hp => exact .path (h _ hp)
  | call _ ih => exact .call ih
  | parameter name value => exact .parameter name value
  | literal l => exact .literal l

theorem plain_ofPathText (text : String) : (ofPathText text).Plain := .path rfl

end Expression

theorem Predicate.ofOperator_sides {left right : Expression} {operator : String} {p : Predicate}
    (h : ofOperator left operator right = .ok p) : p.left = left ∧ p.right = right := by
  obtain ⟨c, -, h⟩ := Outcome.bind_ok_iff.mp h
  rw [compare] at h
  split at h
  · cases h
  · cases h
  · cases h
    exact ⟨rfl, rfl⟩

/-! Conditions that are read from text have literals, parameters and free paths as their sides. -/

section Text
variable {P : Expression → Prop} (literal : ∀ l, P (.literal l))
  (parameter : ∀ name value, P (.parameter (some name) value)) (path : ∀ text, P (.ofPathText text))
include literal parameter path

theorem operand_leaf {s : String} {e : Expression} (h : operand s = .ok e) : P e := by
  rw [operand] at h
  split at h
  · cases h
    exact literal _
  split at h
  · cases h
    exact literal _
  split at h
  · cases h
    exact literal _
  split at h
  · obtain ⟨_, -, h⟩ := Outcome.bind_ok_iff.mp h
    cases h
    exact parameter _ _
  split at h
  · cases h
    exact literal _
  split at h
  · cases h
    exact literal _
  · obtain ⟨_, -, h⟩ := Outcome.bind_ok_iff.mp h
    cases h
    exact path s

theorem Condition.all_text (s : String) : (text s).All P := by
  intro p h
  rw [read, Predicate.parse] at h
  split at h
  · cases h
  dsimp only at h
  split at h
  · cases h
  obtain ⟨left, hleft, h⟩ := Outcome.bind_ok_iff.mp h
  obtain ⟨right, hright, h⟩ := Outcome.bind_ok_iff.mp h
  obtain ⟨rfl, rfl⟩ := Predicate.ofOperator_sides h
  exact ⟨operand_leaf literal parameter path hleft, operand_leaf literal parameter path hright⟩

end Text

/-- A text is plain whatever it says. -/
def Condition.Plain : Condition → Prop
  | text _ => True
  | predicate p => p.All Expression.Plain

theorem Condition.Plain.all {c : Condition} (h : c.Plain) : c.All Expression.Plain := by
  cases c with
  | text s => exact Condition.all_text .literal .parameter Expression.plain_ofPathText s
  | predicate q =>
    intro p hp
    cases hp
    exact h

/-- All that a step brings in is plain. -/
def QueryStep.Plain : QueryStep → Prop
  | .joinEntity _ _ _ _ conditions => ∀ c ∈ conditions, c.Plain
  | .on _ c | .restrict c => c.Plain
  | .select e _ | .groupBy e | .orderBy e _ => e.Plain
  | .selectByPath .. | .root .. | .join .. | .parameter .. | .skip _ | .take _ => True

theorem QueryStep.Plain.all {s : QueryStep} (h : s.Plain) : s.All Expression.Plain := by
  cases s with
  | joinEntity => exact fun c hc => (h c hc).all
  | on label c => exact Condition.Plain.all h
  | restrict c => exact Condition.Plain.all h
  | select => exact h
  | groupBy => exact h
  | orderBy => exact h
  | selectByPath text => exact Expression.plain_ofPathText text
  | _ => trivial

namespace Query
variable {P : Expression → Prop} {q r : Query}

/-- The expressions of a clause, and of the conditions of nodes. -/
def Holds (q : Query) : Clause → Expression → Prop
  | .select, e => ∃ i ∈ q.items, i.expression = e
  | .join, e => ∃ n ∈ q.forest.nodes, ∃ p ∈ n.on, p.left = e ∨ p.right = e
  | .restriction, e => ∃ p ∈ q.conditions, p.left = e ∨ p.right = e
  | .groupBy, e => e ∈ q.groups
  | .having, _ => False
  | .orderBy, e => ∃ order ∈ q.orders, order.1 = e

theorem holds_putNode {label entity : String} {origin : JoinOrigin} {mode : JoinMode}
    {fetch : Bool} {clause : Clause} {e : Expression}
    (h : (q.putNode label entity origin mode fetch).Holds clause e) : q.Holds clause e := by
  cases clause with
  | join =>
    obtain ⟨n, hn, p, hp, side⟩ := h
    rcases List.mem_append.mp hn with hn | hn
    · exact ⟨n, hn, p, hp, side⟩
    · obtain rfl := List.mem_singleton.mp hn
      cases hp
  | _ => exact h

theorem holds_putConditions {i : Nat} {n : ForestNode} {on : List Predicate}
    (hn : q.forest.nodes[i]? = some n) {clause : Clause} {e : Expression}
    (h : (q.putConditions i n on).Holds clause e) :
    q.Holds clause e ∨ ∃ p ∈ on, p.left = e ∨ p.right = e := by
  cases clause with
  | join =>
    obtain ⟨m, hm, p, hp, side⟩ := h
    rcases List.mem_or_eq_of_mem_set hm with hm | rfl
    · exact Or.inl ⟨m, hm, p, hp, side⟩
    · rcases List.mem_append.mp hp with hp | hp
      · exact Or.inl ⟨n, List.mem_of_getElem? hn, p, hp, side⟩
      · exact Or.inr ⟨p, hp, side⟩
  | _ => exact Or.inl h

theorem holds_items {e : Expression} {i : SelectedItem} {scope : AliasScope} {clause : Clause}
    (h : Holds { q with scope := scope, items := q.items ++ [i] } clause e) :
    q.Holds clause e ∨ i.expression = e := by
  cases clause with
  | select =>
    obtain ⟨j, hj, same⟩ := h
    rcases List.mem_append.mp hj with hj | hj
    · exact Or.inl ⟨j, hj, same⟩
    · exact Or.inr (List.mem_singleton.mp hj ▸ same)
  | _ => exact Or.inl h

/-- What a query holds when it has grown was there or is bound. -/
theorem Grows.holds (h : Grows P q r) {clause : Clause} {e : Expression}
    (he : r.Holds clause e) : q.Holds clause e ∨ q.Binds P e := by
  have side : ∀ {p : Predicate}, p.All (q.Binds P) → p.left = e ∨ p.right = e → q.Binds P e := by
    rintro p ⟨left, right⟩ (rfl | rfl)
    · exact left
    · exact right
  cases h with
  | node => exact Or.inl (holds_putNode he)
  | conditions hn joined binds =>
    rcases holds_putConditions hn he with old | ⟨p, hp, same⟩
    · exact Or.inl old
    · exact Or.inr (side (binds p hp) same)
  | item binds =>
    rcases holds_items he with old | rfl
    · exact Or.inl old
    · exact Or.inr binds
  | labelled identifier free binds =>
    rcases holds_items he with old | rfl
    · exact Or.inl old
    · exact Or.inr binds
  | restriction binds =>
    cases clause with
    | restriction =>
      obtain ⟨p, hp, same⟩ := he
      rcases List.mem_append.mp hp with hp | hp
      · exact Or.inl ⟨p, hp, same⟩
      · exact Or.inr (side (List.mem_singleton.mp hp ▸ binds) same)
    | _ => exact Or.inl he
  | group binds =>
    cases clause with
    | groupBy =>
      rcases List.mem_append.mp he with old | new
      · exact Or.inl old
      · exact Or.inr (List.mem_singleton.mp new ▸ binds)
    | _ => exact Or.inl he
  | order binds =>
    cases clause with
    | orderBy =>
      obtain ⟨o, ho, same⟩ := he
      rcases List.mem_append.mp ho with ho | ho
      · exact Or.inl ⟨o, ho, same⟩
      · obtain rfl := List.mem_singleton.mp ho
        exact Or.inr (same ▸ binds)
    | _ => exact Or.inl he
  | parameter => exact Or.inl (by cases clause <;> exact he)
  | skip => exact Or.inl (by cases clause <;> exact he)
  | take => exact Or.inl (by cases clause <;> exact he)

/-- A path that reads a node or a field of it, under its label, or names an item. -/
inductive Knows (q : Query) (p : Path) : Prop
  | node {i : Nat} {n : ForestNode} (bound : p.node = some i) (hn : q.forest.nodes[i]? = some n)
      (whole : p.field = none) (text : p.text = n.label)
  | field {i : Nat} {n : ForestNode} {field : String} (bound : p.node = some i)
      (hn : q.forest.nodes[i]? = some n) (part : p.field = some field)
      (text : p.text = n.label ++ "." ++ field)
  | item {e : Expression} (free : p.node = none)
      (h : q.scope.find? p.text = some (.item e))

theorem Knows.exists_node {p : Path} (h : q.Knows p) {i : Nat} (bound : p.node = some i) :
    ∃ n, q.forest.nodes[i]? = some n := by
  cases h with
  | node hi hn => exact ⟨_, (Option.some.inj (hi.symm.trans bound)) ▸ hn⟩
  | field hi hn => exact ⟨_, (Option.some.inj (hi.symm.trans bound)) ▸ hn⟩
  | item free =>
    rw [free] at bound
    cases bound

theorem Extends.knows (h : q.Extends r) {p : Path} (known : q.Knows p) : r.Knows p := by
  cases known with
  | node bound hn whole text =>
    obtain ⟨m, hm, same⟩ := h.node hn
    exact .node bound hm whole (text.trans (ForestNode.bare_eq_iff.mp same).2.1.symm)
  | field bound hn part text =>
    obtain ⟨m, hm, same⟩ := h.node hn
    exact .field bound hm part ((ForestNode.bare_eq_iff.mp same).2.1 ▸ text)
  | item free hitem => exact .item free (h.scope _ _ hitem)

/-- What a text is resolved to is known. -/
theorem path_known (w : Wired q.basis.schema q.forest.nodes q.scope) {text : String} {p : Path}
    (h : q.path text = .ok p) : q.Knows p := by
  cases (path_ok_iff.mp h).2 with
  | node whole hfind =>
    obtain ⟨n, hn, hlabel⟩ := w.joins _ _ hfind
    exact .node rfl hn rfl (by rw [Path.text_bound, hlabel])
  | field parts hfind =>
    obtain ⟨n, hn, hlabel⟩ := w.joins _ _ hfind
    exact .field rfl hn rfl
      (by rw [Path.text_bound, hlabel, Text.join_of_headAndRest_some parts])
  | item whole hfind => exact .item rfl (by rwa [Path.text_ofText])

/-- The marks of a path do not matter. -/
theorem Knows.marked {p : Path} (h : q.Knows p) (keyed wrapped : Bool) :
    q.Knows { p with keyed := keyed, wrapped := wrapped } := by
  cases h with
  | node bound hn whole text => exact .node bound hn whole text
  | field bound hn part text => exact .field bound hn part text
  | item free h => exact .item free h

theorem bindPath_known (w : Wired q.basis.schema q.forest.nodes q.scope) {p b : Path}
    (free : p.node = none) (h : q.bindPath p = .ok b) : q.Knows b := by
  obtain ⟨a, ha, rfl⟩ := (bindPath_free free).mp h
  exact (path_known w ha).marked _ _

theorem bind_path_known (w : Wired q.basis.schema q.forest.nodes q.scope) {p : Path}
    {b : Expression} (free : p.node = none) (h : q.bind (.path p) = .ok b) :
    ∃ c, b = .path c ∧ q.Knows c := by
  obtain ⟨c, hc, h⟩ := Outcome.bind_ok_iff.mp h
  cases h
  exact ⟨c, rfl, bindPath_known w free hc⟩

theorem bind_built (w : Wired q.basis.schema q.forest.nodes q.scope) {e b : Expression}
    (plain : e.Plain) (h : q.bind e = .ok b) : b.Built q.Knows := by
  induction plain generalizing b with
  | path free =>
    obtain ⟨c, rfl, known⟩ := bind_path_known w free h
    exact .path known
  | @call f as plain ih =>
    obtain ⟨bs, rfl, hbs⟩ := bind_call_ok h
    refine .call fun c hc => ?_
    obtain ⟨a, ha, hac⟩ := Outcome.mem_of_mapM_ok hbs hc
    -- An argument that is a path is marked before it is bound.
    cases plain a ha with
    | @path p free =>
      obtain ⟨d, rfl, known⟩ := bind_path_known w ((Wrapping.node_mark _ p).trans free) hac
      exact .path known
    | call => exact ih _ ha hac
    | parameter => exact ih _ ha hac
    | literal => exact ih _ ha hac
  | parameter name value =>
    cases h
    exact .parameter name value
  | literal l =>
    cases h
    exact .literal l

/-- Nodes, aliases and items fit together, all paths are known, and every alias of a path leads
to an end in fewer steps than there are aliases. -/
structure Settled (q : Query) : Prop where
  wired : Wired q.basis.schema q.forest.nodes q.scope
  selected : q.Selected
  known : ∀ clause e, q.Holds clause e → e.Built q.Knows
  grounded : q.scope.Grounded q.scope.size

theorem Settled.alias_known (s : q.Settled) {label : String} {e : Expression}
    (h : q.scope.find? label = some (.item e)) : e.Built q.Knows :=
  s.known .select e ⟨_, (s.selected.items label e).mp h, rfl⟩

theorem not_holds_empty {basis : QueryBasis} {clause : Clause} {e : Expression} :
    ¬ (empty basis).Holds clause e := by
  cases clause <;> simp [Holds, empty, JoinForest.empty]

theorem settled_empty (basis : QueryBasis) : (empty basis).Settled where
  wired := wired_empty basis
  selected := selected_empty basis
  known _ _ h := absurd h not_holds_empty
  grounded label p h := by
    cases (AliasScope.find?_empty label).symm.trans h

theorem Settled.binds_built (s : q.Settled) {e : Expression} (h : q.Binds Expression.Plain e) :
    e.Built q.Knows := by
  obtain ⟨source, plain, hb⟩ := h
  exact bind_built s.wired plain hb

theorem Settled.grounded_of_grows (s : q.Settled) (h : Grows Expression.Plain q r) :
    r.scope.Grounded r.scope.size := by
  obtain ⟨-, cases⟩ := h.cases
  rcases cases with ⟨label, entity, origin, mode, fetch, -, free, -, -, scope, -⟩ |
    ⟨e, label, -, free, binds, -, scope, -⟩ | ⟨e, -, -, scope, -⟩ | ⟨-, scope, -⟩
  · rw [scope, AliasScope.size_put free]
    exact (s.grounded.put_join free _).mono (Nat.le_succ _)
  · rw [scope, AliasScope.size_put free]
    refine s.grounded.put_item free ?_
    rintro p rfl hfree
    cases s.binds_built binds with
    | path known =>
      cases known with
      | node bound => cases hfree.symm.trans bound
      | field bound => cases hfree.symm.trans bound
      | item _ hitem => exact ⟨_, hitem⟩
  · rw [scope]
    exact s.grounded
  · rw [scope]
    exact s.grounded

theorem Grows.settled (h : Grows Expression.Plain q r) (s : q.Settled) : r.Settled where
  wired := h.wired s.wired
  selected := h.selected s.selected
  known clause e he := by
    have ext := Extends.of_grows h
    rcases h.holds he with old | binds
    · exact (s.known clause e old).mono fun _ => ext.knows
    · exact (s.binds_built binds).mono fun _ => ext.knows
  grounded := s.grounded_of_grows h

theorem settled_run {basis : QueryBasis} {entity label : String} {first : Query}
    (h : start basis entity label = .ok first) {steps : List QueryStep}
    (plain : ∀ s ∈ steps, s.Plain) : (first.run steps).Settled :=
  grown_keeps (fun _ _ s grows => grows.settled s) (settled_empty basis)
    (start_grows h fun s hs => (plain s hs).all)

end Query

end EntityQuery
