import EntityQuery.Proofs.Expression.Calls
import EntityQuery.Proofs.Query.Steps
import Mathlib.Logic.Relation

/-!
# The growth of a query

The steps in which a query is built do few things: they add a node under a new alias,
conditions to a node, an item with or without an alias, or something to a clause. `Grows`
lists these, with all that was checked before. A step that succeeds is a sequence of them, and
what each of them keeps holds of every query that was built from the empty one.
-/

namespace EntityQuery

/-- `P` holds of both sides. -/
def Predicate.All (P : Expression → Prop) (p : Predicate) : Prop := P p.left ∧ P p.right

/-- `P` holds of both sides of the condition that is read. -/
def Condition.All (P : Expression → Prop) (c : Condition) : Prop := ∀ p, c.read = .ok p → p.All P

/-- `P` holds of all expressions that a step brings in. -/
def QueryStep.All (P : Expression → Prop) : QueryStep → Prop
  | .joinEntity _ _ _ _ conditions => ∀ c ∈ conditions, c.All P
  | .on _ c | .restrict c => c.All P
  | .select e _ | .groupBy e | .orderBy e _ => P e
  | .selectByPath text _ => P (.ofPathText text)
  | .root .. | .join .. | .parameter .. | .skip _ | .take _ => True

theorem QueryStep.all_true (s : QueryStep) : s.All fun _ => True := by
  cases s <;> simp [All, Condition.All, Predicate.All]

namespace Query

/-- A step that fails is not taken. -/
def attempt (q : Query) (s : QueryStep) : Query :=
  match q.step s with
  | .ok r => r
  | .error _ => q

def run (q : Query) (steps : List QueryStep) : Query := steps.foldl attempt q

theorem step_eq_run {q : Query} {s : QueryStep} (h : (q.step s).isOk = true) :
    q.step s = .ok (q.run [s]) := by
  rw [run, List.foldl_cons, List.foldl_nil, attempt]
  cases hs : q.step s with
  | ok r => rfl
  | error e =>
    rw [hs] at h
    cases h

/-- What an expression in `P` is bound to. -/
def Binds (q : Query) (P : Expression → Prop) (e : Expression) : Prop :=
  ∃ source, P source ∧ q.bind source = .ok e

/-- Where a new node may come from: a root of a known entity, an attribute of a node that is
there, or a known entity joined to such a node. -/
inductive Follows (q : Query) (entity : String) : JoinOrigin → JoinMode → Bool → Prop
  | root (known : (q.basis.schema.entity? entity).isSome = true) :
      Follows q entity .root .inner false
  | relation {parent : Nat} {n : ForestNode} {a : Attribute} {mode : JoinMode} {fetch : Bool}
      (hn : q.forest.nodes[parent]? = some n)
      (ha : q.basis.schema.attributeOf n.entity a.name = .ok a)
      (target : a.target? = some entity) :
      Follows q entity (.relation parent (.ofAttribute a)) mode fetch
  | entity {parent : Nat} {n : ForestNode} {mode : JoinMode}
      (hn : q.forest.nodes[parent]? = some n)
      (known : (q.basis.schema.entity? entity).isSome = true) :
      Follows q entity (.entity parent) mode false

inductive Grows (P : Expression → Prop) (q : Query) : Query → Prop
  | node {label entity : String} {origin : JoinOrigin} {mode : JoinMode} {fetch : Bool}
      (identifier : Text.isIdentifier label = true) (free : q.scope.find? label = none)
      (follows : q.Follows entity origin mode fetch) :
      Grows P q (q.putNode label entity origin mode fetch)
  | conditions {i : Nat} {n : ForestNode} {on : List Predicate}
      (hn : q.forest.nodes[i]? = some n) (joined : n.isRoot = false)
      (binds : ∀ p ∈ on, p.All (q.Binds P)) : Grows P q (q.putConditions i n on)
  | item {e : Expression} (binds : q.Binds P e) :
      Grows P q { q with items := q.items ++ [⟨e, none⟩] }
  | labelled {e : Expression} {label : String} (identifier : Text.isIdentifier label = true)
      (free : q.scope.find? label = none) (binds : q.Binds P e) :
      Grows P q
        { q with scope := q.scope.put label (.item e), items := q.items ++ [⟨e, some label⟩] }
  | restriction {p : Predicate} (binds : p.All (q.Binds P)) :
      Grows P q { q with conditions := q.conditions ++ [p] }
  | group {e : Expression} (binds : q.Binds P e) : Grows P q { q with groups := q.groups ++ [e] }
  | order {e : Expression} {ascending : Bool} (binds : q.Binds P e) :
      Grows P q { q with orders := q.orders ++ [(e, ascending)] }
  | parameter {name : String} (value : Value) (identifier : Text.isIdentifier name = true) :
      Grows P q { q with parameters := q.parameters.insert name value }
  | skip (n : Nat) : Grows P q (q.skip n)
  | take (n : Nat) : Grows P q (q.take n)

section Steps
variable {P : Expression → Prop} {q r : Query}

theorem withRoot_grows {entity label : String} (h : q.withRoot entity label = .ok r) :
    Grows P q r := by
  obtain ⟨identifier, known, free, rfl⟩ := withRoot_ok_iff.mp h
  exact .node identifier free (.root known)

theorem join_grows {path label : String} {mode : JoinMode} {fetch : Bool}
    (h : q.join path label mode fetch = .ok r) : Grows P q r := by
  obtain ⟨base, i, n, a, entity, -, -, -, identifier, -, hn, ha, target, free, rfl⟩ :=
    join_ok_iff.mp h
  exact .node identifier free (.relation hn ha target)

theorem bindCondition_binds {p b : Predicate} (h : q.bindCondition p = .ok b) (all : p.All P) :
    b.All (q.Binds P) := by
  rw [bindCondition, Predicate.mapSides] at h
  obtain ⟨left, hleft, h⟩ := Outcome.bind_ok_iff.mp h
  obtain ⟨right, hright, h⟩ := Outcome.bind_ok_iff.mp h
  cases h
  exact ⟨⟨p.left, all.1, hleft⟩, ⟨p.right, all.2, hright⟩⟩

theorem readCondition_binds {c : Condition} {p : Predicate} (h : q.readCondition c = .ok p)
    (all : c.All P) : p.All (q.Binds P) := by
  obtain ⟨source, hsource, h⟩ := Outcome.bind_ok_iff.mp h
  exact bindCondition_binds h (all source hsource)

theorem joinEntity_grows {base entity label : String} {mode : JoinMode} {on : List Condition}
    (all : ∀ c ∈ on, c.All P) (h : q.joinEntity base entity label mode on = .ok r) :
    ∃ m, Grows P q m ∧ Grows P m r := by
  obtain ⟨i, n, p, bound, identifier, known, -, hn, free, hbound, rfl⟩ := joinEntity_ok_iff.mp h
  refine ⟨_, .node identifier free (.entity hn known), .conditions (getElem?_putNode ..) rfl ?_⟩
  intro b hb
  obtain ⟨c, hc, hcb⟩ := Outcome.mem_of_mapM_ok hbound hb
  exact readCondition_binds hcb (all c hc)

theorem on_grows {label : String} {c : Condition} (all : c.All P) (h : q.on label c = .ok r) :
    Grows P q r := by
  obtain ⟨i, n, p, -, hp, hn, joined, rfl⟩ := on_ok_iff.mp h
  refine .conditions hn joined ?_
  intro b hb
  obtain rfl := List.mem_singleton.mp hb
  exact readCondition_binds hp all

theorem select_grows {e : Expression} {label : Option String} (he : P e)
    (h : q.select e label = .ok r) : Grows P q r := by
  obtain ⟨b, hb, checked, rfl⟩ := select_ok_iff.mp h
  cases label with
  | none => exact .item ⟨e, he, hb⟩
  | some label =>
    obtain ⟨identifier, free⟩ := checked label rfl
    exact .labelled identifier free ⟨e, he, hb⟩

/-- What a text can be resolved to: a node, a field of one, or an alias of an item. -/
inductive Resolves (q : Query) (text : String) : Path → Prop
  | node {i : Nat} {n : ForestNode} (whole : Text.headAndRest text = (text, none))
      (h : q.scope.find? text = some (.join i)) (hn : q.forest.nodes[i]? = some n) :
      Resolves q text (.bound text i none)
  | field {head field : String} {i : Nat} {n : ForestNode} {attributes : List Attribute}
      (parts : Text.headAndRest text = (head, some field))
      (h : q.scope.find? head = some (.join i)) (hn : q.forest.nodes[i]? = some n)
      (along : q.basis.schema.attributesAlong n.entity field = .ok attributes) :
      Resolves q text (.bound text i (some field))
  | item {e : Expression} (whole : Text.headAndRest text = (text, none))
      (h : q.scope.find? text = some (.item e)) : Resolves q text (.ofText text)

theorem path_ok_iff {text : String} {p : Path} :
    q.path text = .ok p ↔ Text.checkPath text = .ok () ∧ q.Resolves text p := by
  rw [path, Outcome.bind_ok_iff]
  constructor
  · rintro ⟨_, hcheck, h⟩
    refine ⟨hcheck, ?_⟩
    cases hsplit : Text.headAndRest text with
    | mk head rest =>
    rw [hsplit] at h
    cases rest with
    | none =>
      obtain rfl := Text.head_of_headAndRest_none hsplit
      dsimp only at h
      split at h
      · rename_i i hfind
        obtain ⟨n, hn, h⟩ := Outcome.bind_ok_iff.mp h
        cases h
        exact .node hsplit hfind (JoinForest.node_ok_iff.mp hn)
      · rename_i e hfind _
        cases h
        exact .item hsplit hfind
      · cases h
    | some field =>
      dsimp only at h
      split at h
      · rename_i i hfind
        obtain ⟨n, hn, h⟩ := Outcome.bind_ok_iff.mp h
        obtain ⟨attributes, along, h⟩ := Outcome.bind_ok_iff.mp h
        cases h
        exact .field hsplit hfind (JoinForest.node_ok_iff.mp hn) along
      · rename_i hrest
        cases hrest
      · cases h
  · rintro ⟨hcheck, h⟩
    refine ⟨(), hcheck, ?_⟩
    cases h with
    | node whole h hn =>
      simp only [whole, h, pathFrom, JoinForest.node_ok_iff.mpr hn]
      rfl
    | field parts h hn along =>
      simp only [parts, h, pathFrom, JoinForest.node_ok_iff.mpr hn]
      exact Outcome.bind_ok_iff.mpr ⟨_, rfl, Outcome.bind_ok_iff.mpr ⟨_, along, rfl⟩⟩
    | item whole h => simp only [whole, h]

/-- A text is resolved to a path of that text which has no marks. -/
theorem path_unmarked {text : String} {p : Path} (h : q.path text = .ok p) :
    p.text = text ∧ p.keyed = false ∧ p.wrapped = false ∧
      (p.node = none → p = .ofText text) := by
  cases (path_ok_iff.mp h).2 with
  | node => exact ⟨Path.text_bound _ _ _, rfl, rfl, nofun⟩
  | field => exact ⟨Path.text_bound _ _ _, rfl, rfl, nofun⟩
  | item => exact ⟨Path.text_ofText text, rfl, rfl, fun _ => rfl⟩

theorem bindPath_ofText (text : String) : q.bindPath (.ofText text) = q.path text := by
  show (q.path (Path.ofText text).text >>= fun b =>
    .ok { b with keyed := false, wrapped := false }) = _
  rw [Path.text_ofText]
  cases h : q.path text with
  | error e => rfl
  | ok p =>
    obtain ⟨-, keyed, wrapped, -⟩ := path_unmarked h
    obtain ⟨segments, node, field, k, w⟩ := p
    cases keyed
    cases wrapped
    rfl

theorem bind_ofPathText {text : String} {p : Path} (h : q.path text = .ok p) :
    q.bind (.ofPathText text) = .ok (.path p) := by
  rw [Expression.ofPathText, bind, bindPath_ofText, h]
  rfl

/-- What a text is resolved to is bound to itself. -/
theorem bindPath_path {text : String} {p : Path} (h : q.path text = .ok p) :
    q.bindPath p = .ok p := by
  cases hnode : p.node with
  | some i => simp [bindPath, hnode]
  | none =>
    obtain rfl := (path_unmarked h).2.2.2 hnode
    rw [bindPath_ofText, h]

/-- To select by a text is to select the free path that it writes. -/
theorem selectByPath_eq (text : String) (label : Option String) :
    q.selectByPath text label = q.select (.ofPathText text) label := by
  rw [selectByPath, select, Expression.ofPathText, bind, bindPath_ofText]
  cases h : q.path text with
  | error e => rfl
  | ok p =>
    show q.select (.path p) label = _
    rw [select, bind, bindPath_path h]

end Steps

/-- A step that succeeds is a sequence of these changes. -/
theorem step_grows {P : Expression → Prop} {q r : Query} {s : QueryStep} (all : s.All P)
    (h : q.step s = .ok r) : Relation.ReflTransGen (Grows P) q r := by
  cases s with
  | root entity label => exact .single (withRoot_grows h)
  | join path label mode fetch => exact .single (join_grows h)
  | joinEntity base entity label mode on =>
    obtain ⟨m, hm, hr⟩ := joinEntity_grows all h
    exact .tail (.single hm) hr
  | on label c => exact .single (on_grows all h)
  | select e label => exact .single (select_grows all h)
  | selectByPath text label =>
    rw [step, selectByPath_eq] at h
    exact .single (select_grows all h)
  | restrict c =>
    obtain ⟨p, hp, rfl⟩ := restrict_ok_iff.mp h
    exact .single (.restriction (readCondition_binds hp all))
  | groupBy e =>
    obtain ⟨b, hb, rfl⟩ := groupBy_ok_iff.mp h
    exact .single (.group ⟨e, all, hb⟩)
  | orderBy e ascending =>
    obtain ⟨b, hb, rfl⟩ := orderBy_ok_iff.mp h
    exact .single (.order ⟨e, all, hb⟩)
  | parameter name value =>
    obtain ⟨identifier, rfl⟩ := assign_ok_iff.mp h
    exact .single (.parameter value identifier)
  | skip n =>
    cases h
    exact .single (.skip n)
  | take n =>
    cases h
    exact .single (.take n)

theorem run_grows {P : Expression → Prop} (q : Query) {steps : List QueryStep}
    (all : ∀ s ∈ steps, s.All P) : Relation.ReflTransGen (Grows P) q (q.run steps) := by
  induction steps generalizing q with
  | nil => exact .refl
  | cons s rest ih =>
    have first : Relation.ReflTransGen (Grows P) q (q.attempt s) := by
      rw [attempt]
      split
      · rename_i h
        exact step_grows (all s List.mem_cons_self) h
      · exact .refl
    exact first.trans (ih _ fun t ht => all t (List.mem_cons_of_mem s ht))

/-- Every query that is built grows from the empty one. -/
theorem start_grows {P : Expression → Prop} {basis : QueryBasis} {entity label : String}
    {first : Query} (h : start basis entity label = .ok first) {steps : List QueryStep}
    (all : ∀ s ∈ steps, s.All P) :
    Relation.ReflTransGen (Grows P) (empty basis) (first.run steps) :=
  .head (withRoot_grows h) (run_grows first all)

/-- What each change keeps holds of all that grows. -/
theorem grown_keeps {P : Expression → Prop} {I : Query → Prop}
    (keeps : ∀ q r, I q → Grows P q r → I r) {q r : Query} (start : I q)
    (h : Relation.ReflTransGen (Grows P) q r) : I r := by
  induction h with
  | refl => exact start
  | tail _ grows ih => exact keeps _ _ ih grows

end Query

/-! Documents, which the examples are about. -/

namespace Schema

/-- A document has an owner, partners and, by their roles, contacts. -/
def ofDocuments : Schema where
  entities :=
    [("Document", ⟨"Document", "document", "id",
      [.basic "id", .basic "name", .association "owner" "Person",
        .plural "partners" .set "Person", .plural "contacts" .map "Person"]⟩),
     ("Person", ⟨"Person", "person", "id", [.basic "id", .basic "name"]⟩)]

end Schema

namespace QueryBasis

def ofDocuments : QueryBasis where
  schema := .ofDocuments
  profile := .preset .standard
  functions := .ofNames ["initials"]
  resolveAliases := true
  aliasMark := none

end QueryBasis

namespace Query

/-- Selects from documents, which are called `d`. -/
def ofDocuments : Query where
  basis := .ofDocuments
  forest := ⟨[⟨0, "d", "Document", .root, .inner, false, []⟩]⟩
  scope := ⟨[("d", .join 0)], []⟩
  items := []
  conditions := []
  groups := []
  orders := []
  parameters := []
  offset := none
  limit := none

theorem start_ofDocuments : start .ofDocuments "Document" "d" = .ok ofDocuments := by
  rfl

end Query
end EntityQuery
