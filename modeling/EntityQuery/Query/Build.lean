import EntityQuery.Predicate.Parser
import EntityQuery.Query.Basic

/-! The steps in which a query is built. A step that fails leaves the query as it is. -/
namespace EntityQuery

/-- A condition as text or as a predicate. -/
inductive Condition where
  | text (s : String)
  | predicate (p : Predicate)

namespace Condition

def read : Condition → Except QueryError Predicate
  | text s => Predicate.parse s
  | predicate p => .ok p

end Condition

namespace Query

/-- A forest with a new last node, which `label` now names. -/
def withNode (q : Query) (label : String) (forest : JoinForest) : Except QueryError Query := do
  let scope ← q.scope.register label (.join q.forest.size)
  .ok { q with forest, scope }

def withRoot (q : Query) (entity label : String) : Except QueryError Query := do
  Text.checkIdentifier label
  let _ ← q.basis.schema.entity entity
  q.withNode label (q.forest.withRoot entity label)

/-- The query that selects from one entity. -/
def start (basis : QueryBasis) (entity label : String) : Except QueryError Query :=
  (empty basis).withRoot entity label

/-- Joins `label.relation` under a new alias. -/
def join (q : Query) (path label : String) (mode : JoinMode) (fetch : Bool) :
    Except QueryError Query := do
  Text.checkPath path
  Text.checkIdentifier label
  match Text.headAndRest path with
  | (_, none) => .error (.identifier (.notRelation path))
  | (base, some relation) => do
    Text.checkIdentifier relation
    let parent ← q.nodeOf base
    let n ← q.forest.node parent
    let a ← q.basis.schema.attributeOf n.entity relation
    let forest ← q.forest.withRelation parent a label mode fetch
    q.withNode label forest

/-- Adds the conditions, already bound, to a node. -/
def withConditions (q : Query) (node : Nat) (on : List Predicate) : Except QueryError Query := do
  let forest ← on.foldlM (fun t p => t.withCondition node p) q.forest
  .ok { q with forest }

/-- Joins an entity under conditions, in which its alias is known already. -/
def joinEntity (q : Query) (base entity label : String) (mode : JoinMode)
    (on : List Condition) : Except QueryError Query := do
  Text.checkIdentifier label
  let _ ← q.basis.schema.entity entity
  let parent ← q.nodeOf base
  let forest ← q.forest.withEntity parent entity label mode []
  let joined ← q.withNode label forest
  let bound ← on.mapM fun c => do joined.bindCondition (← c.read)
  if bound.isEmpty then .error (.predicate (.conditionMissing label))
  else joined.withConditions q.forest.size bound

def on (q : Query) (label : String) (condition : Condition) : Except QueryError Query := do
  let node ← q.nodeOf label
  let p ← q.bindCondition (← condition.read)
  q.withConditions node [p]

/-- Registers the alias of an item, if it has one. -/
def aliasItem (q : Query) (e : Expression) : Option String → Except QueryError AliasScope
  | none => .ok q.scope
  | some label => do
    Text.checkIdentifier label
    q.scope.register label (.item e)

def select (q : Query) (e : Expression) (label : Option String) : Except QueryError Query := do
  let e ← q.bind e
  let scope ← q.aliasItem e label
  .ok { q with scope, items := q.items ++ [⟨e, label⟩] }

def selectByPath (q : Query) (text : String) (label : Option String) :
    Except QueryError Query := do
  let p ← q.path text
  q.select (.path p) label

def restrict (q : Query) (condition : Condition) : Except QueryError Query := do
  let p ← q.bindCondition (← condition.read)
  .ok { q with conditions := q.conditions ++ [p] }

def groupBy (q : Query) (e : Expression) : Except QueryError Query := do
  let e ← q.bind e
  .ok { q with groups := q.groups ++ [e] }

def orderBy (q : Query) (e : Expression) (ascending : Bool) : Except QueryError Query := do
  let e ← q.bind e
  .ok { q with orders := q.orders ++ [(e, ascending)] }

/-- Gives a parameter its value. -/
def assign (q : Query) (name : String) (value : Value) : Except QueryError Query := do
  Text.checkIdentifier name
  .ok { q with parameters := q.parameters.insert name value }

/-- Passes over the first `n` results. -/
def skip (q : Query) (n : Nat) : Query := { q with offset := some n }

/-- Takes at most `n` results. -/
def take (q : Query) (n : Nat) : Query := { q with limit := some n }

end Query

/-- The steps as data. -/
inductive QueryStep where
  | root (entity label : String)
  | join (path label : String) (mode : JoinMode) (fetch : Bool)
  | joinEntity (base entity label : String) (mode : JoinMode) (on : List Condition)
  | on (label : String) (condition : Condition)
  | select (e : Expression) (label : Option String)
  | selectByPath (text : String) (label : Option String)
  | restrict (condition : Condition)
  | groupBy (e : Expression)
  | orderBy (e : Expression) (ascending : Bool)
  | parameter (name : String) (value : Value)
  | skip (n : Nat)
  | take (n : Nat)

namespace Query

def step (q : Query) : QueryStep → Except QueryError Query
  | .root entity label => q.withRoot entity label
  | .join path label mode fetch => q.join path label mode fetch
  | .joinEntity base entity label mode on => q.joinEntity base entity label mode on
  | .on label condition => q.on label condition
  | .select e label => q.select e label
  | .selectByPath text label => q.selectByPath text label
  | .restrict condition => q.restrict condition
  | .groupBy e => q.groupBy e
  | .orderBy e ascending => q.orderBy e ascending
  | .parameter name value => q.assign name value
  | .skip n => .ok (q.skip n)
  | .take n => .ok (q.take n)

end Query

end EntityQuery
