import EntityQuery.Proofs.AliasScope
import EntityQuery.Proofs.JoinForest
import EntityQuery.Proofs.Schema
import EntityQuery.Proofs.Text.Paths
import EntityQuery.Query.Build

/-!
# What the steps ask for and do

Each step that builds a query succeeds under conditions on names, aliases and what its expressions
are bound to, and then adds one thing. The lemmas of this module say both at once, so that no
proof about queries goes into the steps again.
-/

namespace EntityQuery

namespace Query

/-- The query with a new last node. -/
def putNode (q : Query) (label entity : String) (origin : JoinOrigin) (mode : JoinMode)
    (fetch : Bool) : Query :=
  { q with
    forest := q.forest.append label entity origin mode fetch []
    scope := q.scope.put label (.join q.forest.size) }

/-- The query with more conditions at a node. -/
def putConditions (q : Query) (i : Nat) (n : ForestNode) (on : List Predicate) : Query :=
  { q with forest := ⟨q.forest.nodes.set i { n with on := n.on ++ on }⟩ }

/-- A condition as the query understands it. -/
def readCondition (q : Query) (c : Condition) : Except QueryError Predicate := do
  q.bindCondition (← c.read)

variable {q r : Query}

/-- The new node is the last one. -/
theorem getElem?_putNode (label entity : String) (origin : JoinOrigin) (mode : JoinMode)
    (fetch : Bool) :
    (q.putNode label entity origin mode fetch).forest.nodes[q.forest.size]? =
      some ⟨q.forest.size, label, entity, origin, mode, fetch, []⟩ := by
  simp [putNode, JoinForest.append, JoinForest.size]

/-- An entity join puts its node with all its conditions at the end. -/
theorem nodes_joinEntity (label entity : String) (i : Nat) (mode : JoinMode)
    (on : List Predicate) :
    ((q.putNode label entity (.entity i) mode false).putConditions q.forest.size
      ⟨q.forest.size, label, entity, .entity i, mode, false, []⟩ on).forest.nodes =
      q.forest.nodes ++ [⟨q.forest.size, label, entity, .entity i, mode, false, on⟩] := by
  simp [putNode, putConditions, JoinForest.append, JoinForest.size]

theorem nodeOf_ok_iff {label : String} {i : Nat} :
    q.nodeOf label = .ok i ↔ q.scope.find? label = some (.join i) := by
  rw [nodeOf]
  split <;> simp_all

theorem withNode_ok_iff {label : String} {t : JoinForest} :
    q.withNode label t = .ok r ↔ q.scope.find? label = none ∧
      r = { q with forest := t, scope := q.scope.put label (.join q.forest.size) } := by
  rw [withNode, Outcome.bind_ok_iff]
  constructor
  · rintro ⟨scope, hscope, h⟩
    obtain ⟨free, rfl⟩ := AliasScope.register_ok_iff.mp hscope
    cases h
    exact ⟨free, rfl⟩
  · rintro ⟨free, rfl⟩
    exact ⟨_, AliasScope.register_ok_iff.mpr ⟨free, rfl⟩, rfl⟩

theorem withRoot_ok_iff {entity label : String} :
    q.withRoot entity label = .ok r ↔ Text.isIdentifier label = true ∧
      (q.basis.schema.entity? entity).isSome = true ∧ q.scope.find? label = none ∧
      r = q.putNode label entity .root .inner false := by
  simp only [withRoot, Outcome.bind_ok_iff, withNode_ok_iff, ← Text.checkIdentifier_ok_iff,
    ← Schema.entity_ok_iff]
  constructor
  · rintro ⟨_, identifier, e, hentity, free, rfl⟩
    exact ⟨identifier, ⟨e, hentity⟩, free, rfl⟩
  · rintro ⟨identifier, ⟨e, hentity⟩, free, rfl⟩
    exact ⟨(), identifier, e, hentity, free, rfl⟩

theorem join_ok_iff {path label : String} {mode : JoinMode} {fetch : Bool} :
    q.join path label mode fetch = .ok r ↔ ∃ base i n a entity,
      path = base ++ "." ++ a.name ∧ Text.isIdentifier base = true ∧
      Text.isIdentifier a.name = true ∧ Text.isIdentifier label = true ∧
      q.scope.find? base = some (.join i) ∧ q.forest.nodes[i]? = some n ∧
      q.basis.schema.attributeOf n.entity a.name = .ok a ∧ a.target? = some entity ∧
      q.scope.find? label = none ∧
      r = q.putNode label entity (.relation i (.ofAttribute a)) mode fetch := by
  rw [join]
  constructor
  · intro h
    obtain ⟨_, hpath, h⟩ := Outcome.bind_ok_iff.mp h
    obtain ⟨_, identifier, h⟩ := Outcome.bind_ok_iff.mp h
    split at h
    · cases h
    rename_i base relation parts
    obtain ⟨whole, hbase, -⟩ := Text.path_with_rest_iff.mp ⟨hpath, parts⟩
    obtain ⟨_, hrelation, h⟩ := Outcome.bind_ok_iff.mp h
    obtain ⟨i, hi, h⟩ := Outcome.bind_ok_iff.mp h
    obtain ⟨n, hn, h⟩ := Outcome.bind_ok_iff.mp h
    obtain ⟨a, ha, h⟩ := Outcome.bind_ok_iff.mp h
    obtain ⟨forest, hforest, h⟩ := Outcome.bind_ok_iff.mp h
    obtain ⟨entity, target, rfl⟩ := JoinForest.withRelation_ok hforest
    obtain ⟨free, rfl⟩ := withNode_ok_iff.mp h
    obtain rfl := Schema.attributeOf_name ha
    exact ⟨base, i, n, a, entity, whole, hbase, Text.checkIdentifier_ok_iff.mp hrelation,
      Text.checkIdentifier_ok_iff.mp identifier, nodeOf_ok_iff.mp hi,
      JoinForest.node_ok_iff.mp hn, ha, target, free, rfl⟩
  · rintro ⟨base, i, n, a, entity, rfl, hbase, hrelation, identifier, hi, hn, ha, target, free, rfl⟩
    obtain ⟨hpath, parts⟩ := Text.path_with_rest_iff.mpr
      ⟨rfl, hbase, Text.checkPath_of_isIdentifier hrelation⟩
    have node := JoinForest.node_ok_iff.mpr hn
    have added : q.forest.withRelation i a label mode fetch =
        .ok (q.forest.append label entity (.relation i (.ofAttribute a)) mode fetch []) := by
      rw [JoinForest.withRelation, node, target]
      rfl
    rw [hpath, Text.checkIdentifier_ok_iff.mpr identifier, parts]
    refine Outcome.bind_ok_iff.mpr ⟨(), rfl, Outcome.bind_ok_iff.mpr ⟨(), rfl, ?_⟩⟩
    dsimp only
    rw [Text.checkIdentifier_ok_iff.mpr hrelation, nodeOf_ok_iff.mpr hi]
    exact Outcome.bind_ok_iff.mpr ⟨(), rfl, Outcome.bind_ok_iff.mpr ⟨i, rfl,
      Outcome.bind_ok_iff.mpr ⟨n, node, Outcome.bind_ok_iff.mpr ⟨a, ha,
      Outcome.bind_ok_iff.mpr ⟨_, added, withNode_ok_iff.mpr ⟨free, rfl⟩⟩⟩⟩⟩⟩

theorem withConditions_eq {i : Nat} {n : ForestNode} (hn : q.forest.nodes[i]? = some n)
    (joined : n.isRoot = false) (on : List Predicate) :
    q.withConditions i on = .ok (q.putConditions i n on) := by
  rw [withConditions, JoinForest.foldlM_withCondition hn joined]
  rfl

theorem withConditions_ok_iff {i : Nat} {p : Predicate} {on : List Predicate} :
    q.withConditions i (p :: on) = .ok r ↔ ∃ n, q.forest.nodes[i]? = some n ∧
      n.isRoot = false ∧ r = q.putConditions i n (p :: on) := by
  constructor
  · intro h
    have first := h
    obtain ⟨forest, hforest, -⟩ := Outcome.bind_ok_iff.mp first
    rw [List.foldlM_cons] at hforest
    obtain ⟨m, hm, -⟩ := Outcome.bind_ok_iff.mp hforest
    obtain ⟨n, hn, joined, -⟩ := JoinForest.withCondition_ok hm
    rw [withConditions_eq hn joined] at h
    cases h
    exact ⟨n, hn, joined, rfl⟩
  · rintro ⟨n, hn, joined, rfl⟩
    exact withConditions_eq hn joined (p :: on)

/-- The new node is there when its conditions are bound. -/
theorem joinEntity_ok_iff {base entity label : String} {mode : JoinMode} {on : List Condition} :
    q.joinEntity base entity label mode on = .ok r ↔ ∃ i n p bound,
      Text.isIdentifier label = true ∧ (q.basis.schema.entity? entity).isSome = true ∧
      q.scope.find? base = some (.join i) ∧ q.forest.nodes[i]? = some n ∧
      q.scope.find? label = none ∧
      on.mapM (q.putNode label entity (.entity i) mode false).readCondition =
        .ok (p :: bound) ∧
      r = (q.putNode label entity (.entity i) mode false).putConditions q.forest.size
        ⟨q.forest.size, label, entity, .entity i, mode, false, []⟩ (p :: bound) := by
  have last := fun i => q.getElem?_putNode label entity (.entity i) mode false
  rw [joinEntity]
  constructor
  · intro h
    obtain ⟨_, identifier, h⟩ := Outcome.bind_ok_iff.mp h
    obtain ⟨e, hentity, h⟩ := Outcome.bind_ok_iff.mp h
    obtain ⟨i, hi, h⟩ := Outcome.bind_ok_iff.mp h
    obtain ⟨forest, hforest, h⟩ := Outcome.bind_ok_iff.mp h
    obtain ⟨joined, hjoined, h⟩ := Outcome.bind_ok_iff.mp h
    obtain ⟨bound, hbound, h⟩ := Outcome.bind_ok_iff.mp h
    obtain ⟨n, hn, hforest⟩ := Outcome.bind_ok_iff.mp hforest
    cases hforest
    obtain ⟨free, rfl⟩ := withNode_ok_iff.mp hjoined
    cases bound with
    | nil => cases h
    | cons p bound =>
      obtain ⟨m, hm, joined, rfl⟩ := withConditions_ok_iff.mp h
      cases (last i).symm.trans hm
      exact ⟨i, n, p, bound, Text.checkIdentifier_ok_iff.mp identifier,
        Schema.entity_ok_iff.mp ⟨e, hentity⟩, nodeOf_ok_iff.mp hi, JoinForest.node_ok_iff.mp hn,
        free, hbound, rfl⟩
  · rintro ⟨i, n, p, bound, identifier, hentity, hi, hn, free, hbound, rfl⟩
    obtain ⟨e, hentity⟩ := Schema.entity_ok_iff.mpr hentity
    have node := JoinForest.node_ok_iff.mpr hn
    have added : q.forest.withEntity i entity label mode [] =
        .ok (q.forest.append label entity (.entity i) mode false []) := by
      rw [JoinForest.withEntity, node]
      rfl
    have joined : q.withNode label (q.forest.append label entity (.entity i) mode false []) =
        .ok (q.putNode label entity (.entity i) mode false) := withNode_ok_iff.mpr ⟨free, rfl⟩
    rw [Text.checkIdentifier_ok_iff.mpr identifier, hentity, nodeOf_ok_iff.mpr hi]
    refine Outcome.bind_ok_iff.mpr ⟨(), rfl, Outcome.bind_ok_iff.mpr ⟨e, rfl,
      Outcome.bind_ok_iff.mpr ⟨i, rfl, Outcome.bind_ok_iff.mpr ⟨_, added,
      Outcome.bind_ok_iff.mpr ⟨_, joined, Outcome.bind_ok_iff.mpr ⟨_, hbound, ?_⟩⟩⟩⟩⟩⟩
    exact withConditions_ok_iff.mpr ⟨_, last i, rfl, rfl⟩

theorem on_ok_iff {label : String} {c : Condition} :
    q.on label c = .ok r ↔ ∃ i n p, q.scope.find? label = some (.join i) ∧
      q.readCondition c = .ok p ∧ q.forest.nodes[i]? = some n ∧ n.isRoot = false ∧
      r = q.putConditions i n [p] := by
  rw [on]
  constructor
  · intro h
    obtain ⟨i, hi, h⟩ := Outcome.bind_ok_iff.mp h
    obtain ⟨source, hsource, h⟩ := Outcome.bind_ok_iff.mp h
    obtain ⟨p, hp, h⟩ := Outcome.bind_ok_iff.mp h
    obtain ⟨n, hn, joined, rfl⟩ := withConditions_ok_iff.mp h
    exact ⟨i, n, p, nodeOf_ok_iff.mp hi, Outcome.bind_ok_iff.mpr ⟨source, hsource, hp⟩, hn,
      joined, rfl⟩
  · rintro ⟨i, n, p, hi, hp, hn, joined, rfl⟩
    obtain ⟨source, hsource, hp⟩ := Outcome.bind_ok_iff.mp hp
    exact Outcome.bind_ok_iff.mpr ⟨i, nodeOf_ok_iff.mpr hi, Outcome.bind_ok_iff.mpr
      ⟨source, hsource, Outcome.bind_ok_iff.mpr
        ⟨p, hp, withConditions_ok_iff.mpr ⟨n, hn, joined, rfl⟩⟩⟩⟩

/-- The query with a new last item, which its alias names. -/
def putItem (q : Query) (e : Expression) : Option String → Query
  | none => { q with items := q.items ++ [⟨e, none⟩] }
  | some label =>
    { q with scope := q.scope.put label (.item e), items := q.items ++ [⟨e, some label⟩] }

theorem select_ok_iff {e : Expression} {label : Option String} :
    q.select e label = .ok r ↔ ∃ b, q.bind e = .ok b ∧
      (∀ l ∈ label, Text.isIdentifier l = true ∧ q.scope.find? l = none) ∧
      r = q.putItem b label := by
  rw [select, Outcome.bind_ok_iff]
  refine exists_congr fun b => and_congr_right fun _ => ?_
  rw [Outcome.bind_ok_iff]
  cases label with
  | none =>
    constructor
    · rintro ⟨scope, hscope, h⟩
      cases hscope
      cases h
      exact ⟨nofun, rfl⟩
    · rintro ⟨-, rfl⟩
      exact ⟨q.scope, rfl, rfl⟩
  | some l =>
    constructor
    · rintro ⟨scope, hscope, h⟩
      obtain ⟨_, identifier, hscope⟩ := Outcome.bind_ok_iff.mp hscope
      obtain ⟨free, rfl⟩ := AliasScope.register_ok_iff.mp hscope
      cases h
      refine ⟨fun m hm => ?_, rfl⟩
      obtain rfl := Option.some.inj hm
      exact ⟨Text.checkIdentifier_ok_iff.mp identifier, free⟩
    · rintro ⟨h, rfl⟩
      obtain ⟨identifier, free⟩ := h l rfl
      exact ⟨_, Outcome.bind_ok_iff.mpr ⟨(), Text.checkIdentifier_ok_iff.mpr identifier,
        AliasScope.register_ok_iff.mpr ⟨free, rfl⟩⟩, rfl⟩

theorem restrict_ok_iff {c : Condition} : q.restrict c = .ok r ↔
    ∃ p, q.readCondition c = .ok p ∧ r = { q with conditions := q.conditions ++ [p] } := by
  constructor
  · intro h
    obtain ⟨source, hsource, h⟩ := Outcome.bind_ok_iff.mp h
    obtain ⟨p, hp, h⟩ := Outcome.bind_ok_iff.mp h
    cases h
    exact ⟨p, Outcome.bind_ok_iff.mpr ⟨source, hsource, hp⟩, rfl⟩
  · rintro ⟨p, hp, rfl⟩
    obtain ⟨source, hsource, hp⟩ := Outcome.bind_ok_iff.mp hp
    exact Outcome.bind_ok_iff.mpr ⟨source, hsource, Outcome.bind_ok_iff.mpr ⟨p, hp, rfl⟩⟩

theorem groupBy_ok_iff {e : Expression} : q.groupBy e = .ok r ↔
    ∃ b, q.bind e = .ok b ∧ r = { q with groups := q.groups ++ [b] } := by
  rw [groupBy, Outcome.bind_ok_iff]
  simp only [Except.ok.injEq, eq_comm]

theorem orderBy_ok_iff {e : Expression} {ascending : Bool} : q.orderBy e ascending = .ok r ↔
    ∃ b, q.bind e = .ok b ∧ r = { q with orders := q.orders ++ [(b, ascending)] } := by
  rw [orderBy, Outcome.bind_ok_iff]
  simp only [Except.ok.injEq, eq_comm]

theorem assign_ok_iff {name : String} {value : Value} : q.assign name value = .ok r ↔
    Text.isIdentifier name = true ∧
      r = { q with parameters := q.parameters.insert name value } := by
  rw [assign, Outcome.bind_ok_iff, ← Text.checkIdentifier_ok_iff]
  constructor
  · rintro ⟨_, identifier, h⟩
    cases h
    exact ⟨identifier, rfl⟩
  · rintro ⟨identifier, rfl⟩
    exact ⟨(), identifier, rfl⟩

end Query
end EntityQuery
