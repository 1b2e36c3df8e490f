import EntityQuery.Query.Basic
import EntityQuery.SizeExpansion

/-! The text of a query: SELECT, FROM with the joins of each root behind it, WHERE,
GROUP BY and ORDER BY. -/
namespace EntityQuery

namespace JoinForest

/-- Goes up to the parent at most `fuel` times. -/
def rootWithin (t : JoinForest) : Nat → Nat → Except QueryError Nat
  | 0, id => .error (.nodeUnknown id)
  | fuel + 1, id => do
    match (← t.node id).parent? with
    | some parent => t.rootWithin fuel parent
    | none => .ok id

/-- The root above a node. A parent has a smaller number than its child, so there are no more
steps up than the number of the node. -/
def rootAbove (t : JoinForest) (id : Nat) : Except QueryError Nat := t.rootWithin (id + 1) id

end JoinForest

namespace Query

def renderer (q : Query) : Renderer where
  scope := q.scope
  forest := q.forest
  profile := q.basis.profile
  functions := q.basis.functions
  parameters := q.parameters
  resolveAliases := q.basis.resolveAliases
  aliasMark := q.basis.aliasMark

def sizeExpansion (q : Query) : SizeExpansion := ⟨q.basis.schema, q.forest, q.scope⟩

/-- A join alias as it is written. -/
def marked (q : Query) (label : String) : String := q.basis.aliasMark.getD "" ++ label

def clauseText (q : Query) (clause : Clause) (e : Expression) : Except QueryError String := do
  let e ← q.sizeExpansion.transform clause e
  q.renderer.render e

def predicateText (q : Query) (clause : Clause) (p : Predicate) : Except QueryError String := do
  let p ← p.mapSides (q.sizeExpansion.transform clause)
  q.renderer.renderCondition p

def itemText (q : Query) (i : SelectedItem) : Except QueryError String := do
  let text ← q.clauseText .select i.expression
  match i.label with
  | some label => .ok s!"{text} AS {label}"
  | none => .ok text

/-- Without items the roots are selected. -/
def selectText (q : Query) : Except QueryError String :=
  if q.items.isEmpty then
    .ok (String.intercalate ", " (q.forest.roots.map fun n => q.marked n.label))
  else do
    let texts ← q.items.mapM q.itemText
    .ok (String.intercalate ", " texts)

def fetchText (fetch : Bool) : String := if fetch then " FETCH" else ""

/-- What a node is joined by: a relation of its parent, or its entity. -/
def joinedText (q : Query) (n : ForestNode) : Except QueryError String :=
  match n.origin with
  | .relation parent r => do
    let p ← q.forest.node parent
    .ok s!"{q.marked p.label}.{r.name}"
  | .entity _ => .ok n.entity
  | .root => .ok ""

def onText : List String → String
  | [] => ""
  | conditions => " ON " ++ String.intercalate " AND " conditions

def joinText (q : Query) (n : ForestNode) : Except QueryError String := do
  let joined ← q.joinedText n
  let conditions ← n.on.mapM (q.predicateText .join)
  .ok (s!" {n.mode.keyword}{fetchText n.fetch} {joined} {q.marked n.label}" ++ onText conditions)

/-- The join of a node if it belongs to `root`, otherwise nothing. -/
def joinUnder (q : Query) (root : Nat) (n : ForestNode) : Except QueryError String :=
  if n.isRoot then .ok ""
  else do
    let above ← q.forest.rootAbove n.id
    if above = root then q.joinText n else .ok ""

/-- A root and, in the order in which they were added, the nodes below it. -/
def rootText (q : Query) (root : ForestNode) : Except QueryError String := do
  let joins ← q.forest.nodes.mapM (q.joinUnder root.id)
  .ok (s!"{root.entity} {q.marked root.label}" ++ String.join joins)

def fromText (q : Query) : Except QueryError String := do
  let roots ← q.forest.roots.mapM q.rootText
  .ok (String.intercalate ", " roots)

/-- A clause with its parts, or nothing where there are none. -/
def clause (keyword separator : String) : List String → String
  | [] => ""
  | parts => s!" {keyword} " ++ String.intercalate separator parts

def orderText (q : Query) (order : Expression × Bool) : Except QueryError String := do
  let text ← q.clauseText .orderBy order.1
  .ok (text ++ if order.2 then " ASC" else " DESC")

def text (q : Query) : Except QueryError String := do
  let items ← q.selectText
  let roots ← q.fromText
  let conditions ← q.conditions.mapM (q.predicateText .restriction)
  let groups ← q.groups.mapM (q.clauseText .groupBy)
  let orders ← q.orders.mapM q.orderText
  .ok (s!"SELECT {items} FROM {roots}" ++ clause "WHERE" " AND " conditions ++
    clause "GROUP BY" ", " groups ++ clause "ORDER BY" ", " orders)

end Query

end EntityQuery
