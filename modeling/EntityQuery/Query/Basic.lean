import EntityQuery.Renderer
import EntityQuery.Schema.Basic

/-! Queries under construction, and the binding of what is said in them: a path that starts
at a join alias is bound to its node, and one that is a select alias stays free. -/
namespace EntityQuery

/-- What all queries over one schema share. -/
structure QueryBasis where
  schema : Schema
  profile : Profile
  functions : FunctionNames
  resolveAliases : Bool
  aliasMark : Option String

structure SelectedItem where
  expression : Expression
  label : Option String

structure Query where
  basis : QueryBasis
  forest : JoinForest
  scope : AliasScope
  items : List SelectedItem
  conditions : List Predicate
  groups : List Expression
  /-- Each with whether it is ascending. -/
  orders : List (Expression × Bool)
  parameters : Catalog Value
  offset : Option Nat
  limit : Option Nat

/-- What a function does to a path that is its argument. -/
inductive Wrapping where
  | plain | value | key
deriving DecidableEq

namespace Wrapping

/-- KEY and INDEX read the key of a collection element, VALUE and ENTRY what it holds. -/
def ofFunction (name : String) : Wrapping :=
  if Text.sameLetters name "KEY" || Text.sameLetters name "INDEX" then key
  else if Text.sameLetters name "VALUE" || Text.sameLetters name "ENTRY" then value
  else plain

def mark : Wrapping → Path → Path
  | plain, p => p
  | value, p => { p with wrapped := true }
  | key, p => { p with keyed := true, wrapped := true }

end Wrapping

namespace Query

def empty (basis : QueryBasis) : Query where
  basis := basis
  forest := .empty
  scope := .empty
  items := []
  conditions := []
  groups := []
  orders := []
  parameters := []
  offset := none
  limit := none

/-- The node of a join alias. -/
def nodeOf (q : Query) (label : String) : Except QueryError Nat :=
  match q.scope.find? label with
  | some (.join node) => .ok node
  | _ => .error (.aliasUnknown label)

/-- What follows the alias of a node has to be a path of the entity of the node. -/
def pathFrom (q : Query) (text : String) (node : Nat) (rest : Option String) :
    Except QueryError Path := do
  let n ← q.forest.node node
  match rest with
  | some field => do
    let _ ← q.basis.schema.attributesAlong n.entity field
    .ok (.bound text node rest)
  | none => .ok (.bound text node none)

def path (q : Query) (text : String) : Except QueryError Path := do
  Text.checkPath text
  let (head, rest) := Text.headAndRest text
  match q.scope.find? head, rest with
  | some (.join node), rest => q.pathFrom text node rest
  | some (.item _), none => .ok (.ofText text)
  | _, _ => .error (.aliasUnknown head)

def bindPath (q : Query) (p : Path) : Except QueryError Path :=
  match p.node with
  | some _ => .ok p
  | none => do
    let b ← q.path p.text
    .ok { b with keyed := p.keyed, wrapped := p.wrapped }

mutual

/-- Binds the paths in an expression outside its subqueries and element accesses. -/
def bind (q : Query) : Expression → Except QueryError Expression
  | .path p => do
    let b ← q.bindPath p
    .ok (.path b)
  | .call function arguments => do
    let as ← q.bindArguments (.ofFunction function) arguments
    .ok (.call function as)
  | e => .ok e

def bindArguments (q : Query) (w : Wrapping) :
    List Expression → Except QueryError (List Expression)
  | [] => .ok []
  | .path p :: es => do
    let b ← q.bindPath (w.mark p)
    let bs ← q.bindArguments w es
    .ok (.path b :: bs)
  | e :: es => do
    let b ← q.bind e
    let bs ← q.bindArguments w es
    .ok (b :: bs)

end

def bindCondition (q : Query) (p : Predicate) : Except QueryError Predicate := p.mapSides q.bind

end Query

end EntityQuery
