import EntityQuery.Proofs.Expression.Renaming
import EntityQuery.Proofs.Query.Contents

/-!
# The mark of aliases is a renaming

A query whose join aliases are written with a mark before them is, to a reader, a query in which
they have the mark as a part of their names. `Renamed` is the simulation: a step of the one query
and the renamed step of the other lead from such a pair to such a pair, and both have the same
text.
-/

namespace EntityQuery

def Predicate.rename (ρ : String → String) (p : Predicate) : Predicate :=
  ⟨p.left.rename ρ, p.comparison, p.right.rename ρ⟩

/-- Renames in the predicate that a condition is read as. -/
def Condition.rename (ρ : String → String) (c : Condition) : Condition :=
  match c.read with
  | .ok p => .predicate (p.rename ρ)
  | .error _ => c

theorem Condition.read_rename {ρ : String → String} {c : Condition} {p : Predicate}
    (h : c.read = .ok p) : (c.rename ρ).read = .ok (p.rename ρ) := by
  rw [rename, h]
  rfl

namespace QueryStep

/-- Renames aliases of nodes, and the heads of all paths. -/
def rename (ρ : String → String) : QueryStep → QueryStep
  | .root entity label => .root entity (ρ label)
  | .join path label mode fetch => .join (Text.renameHead ρ path) (ρ label) mode fetch
  | .joinEntity base entity label mode conditions =>
    .joinEntity (ρ base) entity (ρ label) mode (conditions.map (·.rename ρ))
  | .on label c => .on (ρ label) (c.rename ρ)
  | .select e label => .select (e.rename ρ) label
  | .selectByPath text label => .selectByPath (Text.renameHead ρ text) label
  | .restrict c => .restrict (c.rename ρ)
  | .groupBy e => .groupBy (e.rename ρ)
  | .orderBy e ascending => .orderBy (e.rename ρ) ascending
  | .parameter name value => .parameter name value
  | .skip n => .skip n
  | .take n => .take n

/-- The alias of the node that a step adds. -/
def joinAlias? : QueryStep → Option String
  | .root _ label | .join _ label _ _ | .joinEntity _ _ label _ _ => some label
  | _ => none

/-- The alias of the item that a step adds. -/
def itemAlias? : QueryStep → Option String
  | .select _ label | .selectByPath _ label => label
  | _ => none

end QueryStep

def joinAliases (steps : List QueryStep) : List String := steps.filterMap QueryStep.joinAlias?

def itemAliases (steps : List QueryStep) : List String := steps.filterMap QueryStep.itemAlias?

/-- Puts a mark before the given names. -/
def withMark (mark : String) (names : List String) (a : String) : String :=
  if a ∈ names then mark ++ a else a

/-- A mark for the aliases of nodes, which makes no two aliases one. -/
structure Marking where
  mark : String
  joins : List String
  items : List String
  identifier : ∀ a ∈ joins, Text.isIdentifier (mark ++ a) = true
  plain : ∀ a ∈ items, Text.isIdentifier a = true
  disjoint : ∀ a ∈ joins, a ∉ items
  apart : ∀ a ∈ joins, mark ++ a ∉ items

namespace Marking
variable {m : Marking} {a b : String}

def rename (m : Marking) : String → String := withMark m.mark m.joins

theorem rename_join (h : a ∈ m.joins) : m.rename a = m.mark ++ a := if_pos h

theorem isIdentifier_join (h : a ∈ m.joins) : Text.isIdentifier (m.rename a) = true :=
  rename_join h ▸ m.identifier a h

theorem rename_item (h : a ∈ m.items) : m.rename a = a :=
  if_neg fun joined => m.disjoint a joined h

theorem rename_injOn (ha : a ∈ m.joins ∨ a ∈ m.items) (hb : b ∈ m.joins ∨ b ∈ m.items)
    (same : m.rename a = m.rename b) : a = b := by
  rcases ha with ha | ha <;> rcases hb with hb | hb
  · rw [rename_join ha, rename_join hb] at same
    exact (String.append_right_inj m.mark).mp same
  -- A marked name is none of those of items.
  · rw [rename_join ha, rename_item hb] at same
    exact absurd hb (same ▸ m.apart a ha)
  · rw [rename_item ha, rename_join hb] at same
    exact absurd ha (same ▸ m.apart b hb)
  · rwa [rename_item ha, rename_item hb] at same

theorem renameHead_identifier (h : Text.isIdentifier a = true) :
    Text.renameHead m.rename a = m.rename a := by
  rw [Text.renameHead, Text.headAndRest_of_isIdentifier h]

theorem renameHead_item (h : a ∈ m.items) : Text.renameHead m.rename a = a := by
  rw [renameHead_identifier (m.plain a h), rename_item h]

theorem renameHead_dot (h : Text.isIdentifier a = true) (rest : String) :
    Text.renameHead m.rename (a ++ "." ++ rest) = m.rename a ++ "." ++ rest := by
  rw [Text.renameHead, Text.headAndRest_dot (Text.ne_dot_of_isIdentifier h)]

end Marking

def AliasTarget.rename (ρ : String → String) : AliasTarget → AliasTarget
  | item e => item (e.rename ρ)
  | join node => join node

def ForestNode.rename (ρ : String → String) (n : ForestNode) : ForestNode :=
  { n with label := ρ n.label, on := n.on.map (·.rename ρ) }

def SelectedItem.rename (ρ : String → String) (i : SelectedItem) : SelectedItem :=
  { i with expression := i.expression.rename ρ }

namespace Query

/-- `q` writes its join aliases with the mark, and `r` has the marked names and writes them as
they are. -/
structure Renamed (m : Marking) (q r : Query) : Prop where
  mark : q.basis.aliasMark = some m.mark
  basis : r.basis = { q.basis with aliasMark := none }
  forest : r.forest = q.forest.map (ForestNode.rename m.rename)
  size : r.scope.size = q.scope.size
  aliases : ∀ label, label ∈ m.joins ∨ label ∈ m.items →
    r.scope.find? (m.rename label) = (q.scope.find? label).map (AliasTarget.rename m.rename)
  /-- The names in use are those for which the marking was chosen. -/
  joins : ∀ label i, q.scope.find? label = some (.join i) → label ∈ m.joins
  labels : ∀ label e, q.scope.find? label = some (.item e) → label ∈ m.items
  items : r.items = q.items.map (SelectedItem.rename m.rename)
  conditions : r.conditions = q.conditions.map (Predicate.rename m.rename)
  groups : r.groups = q.groups.map (Expression.rename m.rename)
  orders : r.orders = q.orders.map fun o => (o.1.rename m.rename, o.2)
  parameters : r.parameters = q.parameters

namespace Renamed
variable {m : Marking} {q r : Query} (h : q.Renamed m r)
include h

theorem schema : r.basis.schema = q.basis.schema := by rw [h.basis]

theorem node {i : Nat} {n : ForestNode} (hn : q.forest.nodes[i]? = some n) :
    r.forest.nodes[i]? = some (n.rename m.rename) := by
  rw [h.forest, JoinForest.map, List.getElem?_map, hn]
  rfl

theorem find_join {label : String} {i : Nat} (hi : q.scope.find? label = some (.join i)) :
    r.scope.find? (m.rename label) = some (.join i) := by
  rw [h.aliases label (Or.inl (h.joins label i hi)), hi]
  rfl

theorem find_item {label : String} {e : Expression}
    (he : q.scope.find? label = some (.item e)) :
    r.scope.find? label = some (.item (e.rename m.rename)) := by
  have known := h.labels label e he
  have found := h.aliases label (Or.inr known)
  rw [Marking.rename_item known, he] at found
  exact found

theorem free {label : String} (known : label ∈ m.joins ∨ label ∈ m.items)
    (hfree : q.scope.find? label = none) : r.scope.find? (m.rename label) = none := by
  rw [h.aliases label known, hfree]
  rfl

theorem forest_size : r.forest.size = q.forest.size := by
  rw [h.forest, JoinForest.map, JoinForest.size, List.length_map]
  rfl

/-! Paths, expressions and conditions are bound alike. -/

theorem path {text : String} {p : Path} (hp : q.path text = .ok p) :
    r.path (Text.renameHead m.rename text) = .ok (p.rename m.rename) := by
  obtain ⟨hcheck, resolves⟩ := path_ok_iff.mp hp
  cases resolves with
  | @node i n whole hfind hn =>
    obtain ⟨-, identifier⟩ := Text.path_without_rest_iff.mp ⟨hcheck, whole⟩
    have joined := h.joins text i hfind
    have renamed := Marking.isIdentifier_join joined
    rw [Marking.renameHead_identifier identifier, Path.rename_bound,
      Marking.renameHead_identifier identifier]
    exact path_ok_iff.mpr ⟨Text.checkPath_of_isIdentifier renamed,
      .node (Text.headAndRest_of_isIdentifier renamed) (h.find_join hfind) (h.node hn)⟩
  | @field head field i n attributes parts hfind hn along =>
    obtain ⟨rfl, identifier, hrest⟩ := Text.path_with_rest_iff.mp ⟨hcheck, parts⟩
    have joined := h.joins head i hfind
    obtain ⟨hpath, split⟩ :=
      Text.path_with_rest_iff.mpr ⟨rfl, Marking.isIdentifier_join joined, hrest⟩
    have onward : r.basis.schema.attributesAlong (n.rename m.rename).entity field =
        .ok attributes := by
      rw [h.basis]
      exact along
    rw [Path.rename_bound, Marking.renameHead_dot identifier]
    exact path_ok_iff.mpr ⟨hpath, .field split (h.find_join hfind) (h.node hn) onward⟩
  -- An alias of an item is a path of its own, and has no mark.
  | @item e whole hfind =>
    have known := h.labels text e hfind
    have identifier := m.plain text known
    rw [Path.rename_ofText, Marking.renameHead_item known]
    exact path_ok_iff.mpr ⟨Text.checkPath_of_isIdentifier identifier,
      .item (Text.headAndRest_of_isIdentifier identifier) (h.find_item hfind)⟩

theorem bindPath {p b : Path} (hb : q.bindPath p = .ok b) :
    r.bindPath (p.rename m.rename) = .ok (b.rename m.rename) := by
  have node : (p.rename m.rename).node = p.node := Path.node_rename p
  cases hp : p.node with
  | some i =>
    obtain rfl := (bindPath_bound hp).mp hb
    exact (bindPath_bound (node.trans hp)).mpr rfl
  | none =>
    obtain ⟨a, ha, rfl⟩ := (bindPath_free hp).mp hb
    refine (bindPath_free (node.trans hp)).mpr ⟨a.rename m.rename, ?_, ?_⟩
    · rw [Path.text_rename]
      exact h.path ha
    · rw [Path.rename_marks, Path.keyed_rename, Path.wrapped_rename]

theorem bind_path {p : Path} {b : Expression} (hb : q.bind (.path p) = .ok b) :
    r.bind (.path (p.rename m.rename)) = .ok (b.rename m.rename) := by
  obtain ⟨c, hc, hb⟩ := Outcome.bind_ok_iff.mp hb
  cases hb
  exact Outcome.bind_ok_iff.mpr ⟨_, h.bindPath hc, rfl⟩

theorem bind {e b : Expression} (hb : q.bind e = .ok b) :
    r.bind (e.rename m.rename) = .ok (b.rename m.rename) := by
  induction e using Expression.byParts generalizing b with
  | path p => exact h.bind_path hb
  | call f as ih =>
    obtain ⟨bs, rfl, hbs⟩ := bind_call_ok hb
    have bound : (as.map (Expression.rename m.rename)).mapM
        (fun a => r.bind (a.marked (.ofFunction f))) = .ok (bs.map (Expression.rename m.rename)) := by
      refine Outcome.mapM_map_ok_of hbs fun a ha b hab => ?_
      rw [Expression.marked_rename]
      cases a with
      | path p => exact h.bind_path hab
      | _ => exact ih _ ha hab
    rw [Expression.rename_call, Expression.rename_call, Query.bind, bindArguments_eq, bound]
    rfl
  | parameter => cases hb; rfl
  | element => cases hb; rfl
  | literal => cases hb; rfl
  | subquery => cases hb; rfl

theorem readCondition {c : Condition} {p : Predicate} (hp : q.readCondition c = .ok p) :
    r.readCondition (c.rename m.rename) = .ok (p.rename m.rename) := by
  obtain ⟨source, hsource, hp⟩ := Outcome.bind_ok_iff.mp hp
  obtain ⟨left, hleft, hp⟩ := Outcome.bind_ok_iff.mp hp
  obtain ⟨right, hright, hp⟩ := Outcome.bind_ok_iff.mp hp
  cases hp
  exact Outcome.bind_ok_iff.mpr ⟨_, Condition.read_rename hsource, Outcome.bind_ok_iff.mpr
    ⟨_, h.bind hleft, Outcome.bind_ok_iff.mpr ⟨_, h.bind hright, rfl⟩⟩⟩

/-! Nodes, conditions and items are added alike. -/

theorem aliases_put {label : String} (known : label ∈ m.joins ∨ label ∈ m.items) (t : AliasTarget)
    (other : String) (there : other ∈ m.joins ∨ other ∈ m.items) :
    (r.scope.put (m.rename label) (t.rename m.rename)).find? (m.rename other) =
      ((q.scope.put label t).find? other).map (AliasTarget.rename m.rename) := by
  by_cases same : other = label
  · rw [same, AliasScope.find?_put_self, AliasScope.find?_put_self]
    rfl
  · have apart : m.rename other ≠ m.rename label :=
      fun merged => same (Marking.rename_injOn there known merged)
    rw [AliasScope.find?_put_of_ne _ apart, AliasScope.find?_put_of_ne _ same,
      h.aliases other there]

theorem size_put {label : String} (known : label ∈ m.joins ∨ label ∈ m.items)
    (hfree : q.scope.find? label = none) (s t : AliasTarget) :
    (r.scope.put (m.rename label) s).size = (q.scope.put label t).size := by
  rw [AliasScope.size_put (h.free known hfree), AliasScope.size_put hfree, h.size]

theorem putNode {label : String} (joined : label ∈ m.joins) (hfree : q.scope.find? label = none)
    (entity : String) (origin : JoinOrigin) (mode : JoinMode) (fetch : Bool) :
    (q.putNode label entity origin mode fetch).Renamed m
      (r.putNode (m.rename label) entity origin mode fetch) where
  mark := h.mark
  basis := h.basis
  forest := by
    show JoinForest.mk (r.forest.nodes ++ [⟨r.forest.size, _, _, _, _, _, _⟩]) = _
    rw [h.forest_size, h.forest]
    simp [JoinForest.map, JoinForest.append, Query.putNode, ForestNode.rename]
  size := h.size_put (Or.inl joined) hfree _ _
  aliases other there := by
    show (r.scope.put _ (.join r.forest.size)).find? _ = _
    rw [h.forest_size]
    exact h.aliases_put (Or.inl joined) (.join q.forest.size) other there
  joins other i hi := by
    by_cases same : other = label
    · exact same ▸ joined
    · exact h.joins other i (AliasScope.find?_put_of_ne _ same ▸ hi)
  labels other e he := by
    by_cases same : other = label
    · subst same
      cases (AliasScope.find?_put_self _).symm.trans he
    · exact h.labels other e (AliasScope.find?_put_of_ne _ same ▸ he)
  items := h.items
  conditions := h.conditions
  groups := h.groups
  orders := h.orders
  parameters := h.parameters

theorem putConditions {i : Nat} {n : ForestNode} (on : List Predicate) :
    (q.putConditions i n on).Renamed m
      (r.putConditions i (n.rename m.rename) (on.map (Predicate.rename m.rename))) :=
  { h with
    forest := by
      show JoinForest.mk (r.forest.nodes.set i _) = _
      rw [h.forest]
      simp [JoinForest.map, Query.putConditions, ForestNode.rename, List.map_set] }

theorem putItem {e : Expression} {label : Option String}
    (named : ∀ l ∈ label, l ∈ m.items ∧ q.scope.find? l = none) :
    (q.putItem e label).Renamed m (r.putItem (e.rename m.rename) label) := by
  have items : ∀ l, r.items ++ [SelectedItem.mk (e.rename m.rename) l] =
      (q.items ++ [SelectedItem.mk e l]).map (SelectedItem.rename m.rename) := by
    intro l
    rw [h.items, List.map_append]
    rfl
  cases label with
  | none => exact { h with items := items none }
  | some l =>
    obtain ⟨known, hfree⟩ := named l rfl
    have put := h.aliases_put (Or.inr known) (.item e)
    have size := h.size_put (Or.inr known) hfree (.item (e.rename m.rename)) (.item e)
    rw [Marking.rename_item known] at put size
    refine { h with size := size, aliases := put, joins := ?_, labels := ?_, items := items _ }
    · intro other i hi
      by_cases same : other = l
      · subst same
        cases (AliasScope.find?_put_self _).symm.trans hi
      · exact h.joins other i (AliasScope.find?_put_of_ne _ same ▸ hi)
    · intro other f hf
      by_cases same : other = l
      · exact same ▸ known
      · exact h.labels other f (AliasScope.find?_put_of_ne _ same ▸ hf)

variable {q' : Query}

theorem withRoot {entity label : String} (joined : label ∈ m.joins)
    (hq : q.withRoot entity label = .ok q') :
    ∃ r', r.withRoot entity (m.rename label) = .ok r' ∧ q'.Renamed m r' := by
  obtain ⟨-, known, hfree, rfl⟩ := withRoot_ok_iff.mp hq
  exact ⟨_, withRoot_ok_iff.mpr ⟨Marking.isIdentifier_join joined, h.schema ▸ known,
    h.free (Or.inl joined) hfree, rfl⟩, h.putNode joined hfree entity .root .inner false⟩

theorem join {path label : String} {mode : JoinMode} {fetch : Bool} (joined : label ∈ m.joins)
    (hq : q.join path label mode fetch = .ok q') :
    ∃ r', r.join (Text.renameHead m.rename path) (m.rename label) mode fetch = .ok r' ∧
      q'.Renamed m r' := by
  obtain ⟨base, i, n, a, entity, rfl, hbase, hname, -, hi, hn, ha, target, hfree, rfl⟩ :=
    join_ok_iff.mp hq
  rw [Marking.renameHead_dot hbase]
  refine ⟨_, join_ok_iff.mpr ⟨m.rename base, i, n.rename m.rename, a, entity, rfl,
    Marking.isIdentifier_join (h.joins base i hi), hname, Marking.isIdentifier_join joined,
    h.find_join hi, h.node hn, ?_, target, h.free (Or.inl joined) hfree, rfl⟩,
    h.putNode joined hfree entity _ mode fetch⟩
  rw [h.schema]
  exact ha

theorem joinEntity {base entity label : String} {mode : JoinMode} {on : List Condition}
    (joined : label ∈ m.joins) (hq : q.joinEntity base entity label mode on = .ok q') :
    ∃ r', r.joinEntity (m.rename base) entity (m.rename label) mode
      (on.map (·.rename m.rename)) = .ok r' ∧ q'.Renamed m r' := by
  obtain ⟨i, n, p, bound, -, known, hi, hn, hfree, hbound, rfl⟩ := joinEntity_ok_iff.mp hq
  have there := h.putNode joined hfree entity (.entity i) mode false
  have read := Outcome.mapM_map_ok_of hbound fun c _ b hb => there.readCondition hb
  refine ⟨_, joinEntity_ok_iff.mpr ⟨i, n.rename m.rename, p.rename m.rename,
    bound.map (Predicate.rename m.rename), Marking.isIdentifier_join joined, h.schema ▸ known,
    h.find_join hi, h.node hn, h.free (Or.inl joined) hfree, read, rfl⟩, ?_⟩
  rw [h.forest_size]
  exact there.putConditions (p :: bound)

theorem on {label : String} {c : Condition} (hq : q.on label c = .ok q') :
    ∃ r', r.on (m.rename label) (c.rename m.rename) = .ok r' ∧ q'.Renamed m r' := by
  obtain ⟨i, n, p, hi, hp, hn, other, rfl⟩ := on_ok_iff.mp hq
  exact ⟨_, on_ok_iff.mpr ⟨i, n.rename m.rename, p.rename m.rename, h.find_join hi,
    h.readCondition hp, h.node hn, other, rfl⟩, h.putConditions [p]⟩

theorem select {e : Expression} {label : Option String} (named : ∀ l ∈ label, l ∈ m.items)
    (hq : q.select e label = .ok q') :
    ∃ r', r.select (e.rename m.rename) label = .ok r' ∧ q'.Renamed m r' := by
  obtain ⟨b, hb, checked, rfl⟩ := select_ok_iff.mp hq
  have free : ∀ l ∈ label, r.scope.find? l = none := by
    intro l hl
    have none := h.free (Or.inr (named l hl)) (checked l hl).2
    rwa [Marking.rename_item (named l hl)] at none
  exact ⟨_, select_ok_iff.mpr ⟨_, h.bind hb, fun l hl => ⟨(checked l hl).1, free l hl⟩, rfl⟩,
    h.putItem fun l hl => ⟨named l hl, (checked l hl).2⟩⟩

/-- A step of the one query is a step of the other. -/
theorem step {s : QueryStep} (joined : ∀ a ∈ s.joinAlias?, a ∈ m.joins)
    (named : ∀ a ∈ s.itemAlias?, a ∈ m.items) (hq : q.step s = .ok q') :
    ∃ r', r.step (s.rename m.rename) = .ok r' ∧ q'.Renamed m r' := by
  cases s with
  | root entity label => exact h.withRoot (joined label rfl) hq
  | join path label mode fetch => exact h.join (joined label rfl) hq
  | joinEntity base entity label mode conditions => exact h.joinEntity (joined label rfl) hq
  | on label c => exact h.on hq
  | select e label => exact h.select named hq
  | selectByPath text label =>
    rw [Query.step, selectByPath_eq] at hq
    rw [QueryStep.rename, Query.step, selectByPath_eq, ← Expression.rename_ofPathText]
    exact h.select named hq
  | restrict c =>
    obtain ⟨p, hp, rfl⟩ := restrict_ok_iff.mp hq
    refine ⟨_, restrict_ok_iff.mpr ⟨_, h.readCondition hp, rfl⟩, { h with conditions := ?_ }⟩
    rw [h.conditions, List.map_append]
    rfl
  | groupBy e =>
    obtain ⟨b, hb, rfl⟩ := groupBy_ok_iff.mp hq
    refine ⟨_, groupBy_ok_iff.mpr ⟨_, h.bind hb, rfl⟩, { h with groups := ?_ }⟩
    rw [h.groups, List.map_append]
    rfl
  | orderBy e ascending =>
    obtain ⟨b, hb, rfl⟩ := orderBy_ok_iff.mp hq
    refine ⟨_, orderBy_ok_iff.mpr ⟨_, h.bind hb, rfl⟩, { h with orders := ?_ }⟩
    rw [h.orders, List.map_append]
    rfl
  | parameter name value =>
    obtain ⟨identifier, rfl⟩ := assign_ok_iff.mp hq
    refine ⟨_, assign_ok_iff.mpr ⟨identifier, rfl⟩, { h with parameters := ?_ }⟩
    rw [h.parameters]
  | skip n =>
    cases hq
    exact ⟨_, rfl, { h with }⟩
  | take n =>
    cases hq
    exact ⟨_, rfl, { h with }⟩

end Renamed

/-! Runs in which no step fails. -/

/-- All of the steps, one after the other. -/
def build (q : Query) (steps : List QueryStep) : Except QueryError Query := steps.foldlM step q

variable {q r : Query} {s : QueryStep} {steps : List QueryStep}

theorem build_cons_ok_iff :
    q.build (s :: steps) = .ok r ↔ ∃ m, q.step s = .ok m ∧ m.build steps = .ok r := by
  rw [build, List.foldlM_cons, Outcome.bind_ok_iff]
  rfl

theorem run_of_build (h : q.build steps = .ok r) : q.run steps = r := by
  induction steps generalizing q with
  | nil =>
    cases h
    rfl
  | cons s rest ih =>
    obtain ⟨m, hm, h⟩ := build_cons_ok_iff.mp h
    rw [run, List.foldl_cons, attempt, hm]
    exact ih h

theorem build_eq_run (h : (q.build steps).isOk = true) : q.build steps = .ok (q.run steps) := by
  cases hr : q.build steps with
  | ok r => rw [run_of_build hr]
  | error e =>
    rw [hr] at h
    cases h

/-- What each step came to is a part of what all come to. -/
theorem exists_step_of_build (h : q.build steps = .ok r) (hs : s ∈ steps) :
    ∃ m n : Query, m.step s = .ok n ∧ n.Extends r := by
  induction steps generalizing q with
  | nil => cases hs
  | cons t rest ih =>
    obtain ⟨m, hm, hrest⟩ := build_cons_ok_iff.mp h
    rcases List.mem_cons.mp hs with rfl | hs
    · have ext := Extends.run m rest
      rw [run_of_build hrest] at ext
      exact ⟨q, m, hm, ext⟩
    · exact ih hrest hs

theorem find?_joinAlias (h : q.step s = .ok r) {a : String} (ha : a ∈ s.joinAlias?) :
    ∃ i, r.scope.find? a = some (.join i) := by
  cases s with
  | root entity label =>
    obtain rfl := Option.some.inj ha
    obtain ⟨-, -, -, rfl⟩ := withRoot_ok_iff.mp h
    exact ⟨_, AliasScope.find?_put_self _⟩
  | join path label mode fetch =>
    obtain rfl := Option.some.inj ha
    obtain ⟨base, i, n, b, entity, -, -, -, -, -, -, -, -, -, rfl⟩ := join_ok_iff.mp h
    exact ⟨_, AliasScope.find?_put_self _⟩
  | joinEntity base entity label mode conditions =>
    obtain rfl := Option.some.inj ha
    obtain ⟨i, n, p, bound, -, -, -, -, -, -, rfl⟩ := joinEntity_ok_iff.mp h
    exact ⟨_, AliasScope.find?_put_self _⟩
  | _ => cases ha

theorem find?_itemAlias (h : q.step s = .ok r) {a : String} (ha : a ∈ s.itemAlias?) :
    Text.isIdentifier a = true ∧ ∃ e, r.scope.find? a = some (.item e) := by
  have selected : ∀ {e : Expression} {label : Option String}, q.select e label = .ok r →
      a ∈ label → Text.isIdentifier a = true ∧ ∃ e, r.scope.find? a = some (.item e) := by
    intro e label h ha
    obtain rfl := Option.mem_def.mp ha
    obtain ⟨b, -, checked, rfl⟩ := select_ok_iff.mp h
    exact ⟨(checked a rfl).1, b, AliasScope.find?_put_self _⟩
  cases s with
  | select e label => exact selected h ha
  | selectByPath text label =>
    rw [step, selectByPath_eq] at h
    exact selected h ha
  | _ => cases ha

theorem join_of_build (h : q.build steps = .ok r) {a : String} (ha : a ∈ joinAliases steps) :
    ∃ i, r.scope.find? a = some (.join i) := by
  obtain ⟨s, hs, ha⟩ := List.mem_filterMap.mp ha
  obtain ⟨m, n, hm, ext⟩ := exists_step_of_build h hs
  obtain ⟨i, hi⟩ := find?_joinAlias hm ha
  exact ⟨i, ext.scope a _ hi⟩

theorem item_of_build (h : q.build steps = .ok r) {a : String} (ha : a ∈ itemAliases steps) :
    Text.isIdentifier a = true ∧ ∃ e, r.scope.find? a = some (.item e) := by
  obtain ⟨s, hs, ha⟩ := List.mem_filterMap.mp ha
  obtain ⟨m, n, hm, ext⟩ := exists_step_of_build h hs
  obtain ⟨identifier, e, he⟩ := find?_itemAlias hm ha
  exact ⟨identifier, e, ext.scope a _ he⟩

end Query

/-- A mark for the aliases of steps none of which fails, so that no alias is given twice. -/
def Marking.ofBuild {q r : Query} {steps : List QueryStep} (h : q.build steps = .ok r)
    {mark : String}
    (identifier : ∀ a ∈ joinAliases steps, Text.isIdentifier (mark ++ a) = true)
    (apart : ∀ a ∈ joinAliases steps, mark ++ a ∉ itemAliases steps) : Marking where
  mark := mark
  joins := joinAliases steps
  items := itemAliases steps
  identifier := identifier
  plain _ ha := (Query.item_of_build h ha).1
  disjoint a joined named := by
    obtain ⟨i, hi⟩ := Query.join_of_build h joined
    obtain ⟨-, e, he⟩ := Query.item_of_build h named
    cases hi.symm.trans he
  apart := apart

namespace Query

theorem renamed_empty {m : Marking} {basis : QueryBasis} (marked : basis.aliasMark = some m.mark) :
    (empty basis).Renamed m (empty { basis with aliasMark := none }) where
  mark := marked
  basis := rfl
  forest := rfl
  size := rfl
  aliases _ _ := rfl
  joins _ _ h := by cases h
  labels _ _ h := by cases h
  items := rfl
  conditions := rfl
  groups := rfl
  orders := rfl
  parameters := rfl

/-- The renamed steps do not fail either. -/
theorem Renamed.build {m : Marking} {q r : Query} (h : q.Renamed m r) {steps : List QueryStep}
    (joined : ∀ a ∈ joinAliases steps, a ∈ m.joins)
    (named : ∀ a ∈ itemAliases steps, a ∈ m.items) {q' : Query} (hq : q.build steps = .ok q') :
    ∃ r', r.build (steps.map (·.rename m.rename)) = .ok r' ∧ q'.Renamed m r' := by
  induction steps generalizing q r with
  | nil =>
    cases hq
    exact ⟨r, rfl, h⟩
  | cons s rest ih =>
    obtain ⟨q₁, hstep, hrest⟩ := build_cons_ok_iff.mp hq
    obtain ⟨r₁, hstep', h₁⟩ := h.step
      (fun a ha => joined a (List.mem_filterMap.mpr ⟨s, List.mem_cons_self, ha⟩))
      (fun a ha => named a (List.mem_filterMap.mpr ⟨s, List.mem_cons_self, ha⟩)) hstep
    have later : ∀ {f : QueryStep → Option String} {a : String},
        a ∈ rest.filterMap f → a ∈ (s :: rest).filterMap f := by
      intro f a ha
      obtain ⟨t, ht, ha⟩ := List.mem_filterMap.mp ha
      exact List.mem_filterMap.mpr ⟨t, List.mem_cons_of_mem s ht, ha⟩
    obtain ⟨r', hr, h'⟩ := ih h₁ (fun a ha => joined a (later ha))
      (fun a ha => named a (later ha)) hrest
    exact ⟨r', build_cons_ok_iff.mpr ⟨r₁, hstep', hr⟩, h'⟩

end Query
end EntityQuery
