import EntityQuery.AliasScope
import EntityQuery.JoinForest
import EntityQuery.Schema.Basic

/-! Calls of SIZE on a collection become counting subqueries, so that the query need not join
the collection. The items of SELECT are left as they are. -/
namespace EntityQuery

inductive Clause where
  | select | join | restriction | groupBy | having | orderBy
deriving DecidableEq

structure SizeExpansion where
  schema : Schema
  forest : JoinForest
  scope : AliasScope

namespace SizeExpansion

/-- Counts the elements of a collection of `owner` in a query over its entity that is tied to
it by its id. -/
def counting (w : SizeExpansion) (node : Nat) (owner : ForestNode) (entity : Entity)
    (collection : String) : Expression :=
  let base := w.scope.generate s!"{owner.label}_base"
  let joined := w.scope.generate s!"{owner.label}_{collection}"
  let ownerId := Path.bound s!"{owner.label}.{entity.id}" node (some entity.id)
  .subquery (.call "COUNT" [.ofPathText joined]) entity.name base
    [(s!"{base}.{collection}", joined)]
    [(.ofPathText s!"{base}.{entity.id}", .path ownerId)]

/-- The subquery for the collection that a bound path leads to. -/
def size (w : SizeExpansion) (p : Path) (node : Nat) : Except QueryError Expression := do
  let owner ← w.forest.node node
  match p.field with
  | none => .error (.schema (.sizeOfAlias owner.label))
  | some collection => do
    let entity ← w.schema.entity owner.entity
    let a ← w.schema.attributeOf owner.entity collection
    if a.collection?.isSome then .ok (w.counting node owner entity collection)
    else .error (.schema (.sizeOfSingle owner.label collection))

/-- The one argument of a call of SIZE, if it is a bound path. -/
def sizeArgument? (function : String) (arguments : List Expression) : Option (Path × Nat) :=
  match arguments with
  | [.path p] =>
    if Text.sameLetters function "SIZE" then p.node.map fun node => (p, node) else none
  | _ => none

mutual

/-- Other arguments of SIZE are left as they are. -/
def expand (w : SizeExpansion) : Expression → Except QueryError Expression
  | .call function arguments =>
    match sizeArgument? function arguments with
    | some (p, node) => w.size p node
    | none =>
      if Text.sameLetters function "SIZE" then .ok (.call function arguments)
      else do
        let as ← w.expandList arguments
        .ok (.call function as)
  | e => .ok e

def expandList (w : SizeExpansion) : List Expression → Except QueryError (List Expression)
  | [] => .ok []
  | e :: es => do
    let e ← w.expand e
    let es ← w.expandList es
    .ok (e :: es)

end

def transform (w : SizeExpansion) (clause : Clause) (e : Expression) :
    Except QueryError Expression :=
  if clause = .select then .ok e else w.expand e

end SizeExpansion

end EntityQuery
