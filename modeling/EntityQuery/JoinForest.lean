import EntityQuery.Predicate.Basic
import EntityQuery.Schema.Attribute

/-! The entities of a FROM clause as a forest. Nodes are numbered in the order in which they
are added, and a node that is no root names the parent that it is joined to. -/
namespace EntityQuery

inductive JoinMode where
  | inner | left | right
deriving DecidableEq

namespace JoinMode

def keyword : JoinMode → String
  | inner => "JOIN"
  | left => "LEFT JOIN"
  | right => "RIGHT JOIN"

end JoinMode

/-- What a node keeps of the attribute that leads to it. -/
structure Relation where
  name : String
  collection : Option PluralKind
  indexed : Bool
  joinTable : Option JoinTable
deriving DecidableEq

namespace Relation

def ofAttribute (a : Attribute) : Relation :=
  ⟨a.name, a.collection?, a.isIndexed, a.joinTable?⟩

def isCollection (r : Relation) : Bool := r.collection.isSome

def isMap (r : Relation) : Bool := r.collection = some .map

end Relation

/-- A relation follows an attribute of its parent, and an entity join is bound to its parent
by its condition alone. -/
inductive JoinOrigin where
  | root
  | relation (parent : Nat) (relation : Relation)
  | entity (parent : Nat)

namespace JoinOrigin

def word : JoinOrigin → String
  | root => "root"
  | relation .. => "relation"
  | entity _ => "entity"

end JoinOrigin

structure ForestNode where
  id : Nat
  label : String
  entity : String
  origin : JoinOrigin
  mode : JoinMode
  fetch : Bool
  on : List Predicate

namespace ForestNode

def isRoot (n : ForestNode) : Bool :=
  match n.origin with
  | .root => true
  | _ => false

def parent? (n : ForestNode) : Option Nat :=
  match n.origin with
  | .root => none
  | .relation parent _ | .entity parent => some parent

def relation? (n : ForestNode) : Option Relation :=
  match n.origin with
  | .relation _ r => some r
  | _ => none

/-- Does the node range over the values of a map or the elements of a list with indexes? -/
def isIndexed (n : ForestNode) : Bool := n.relation?.any (·.indexed)

end ForestNode

structure JoinForest where
  nodes : List ForestNode

namespace JoinForest

def empty : JoinForest := ⟨[]⟩

def size (t : JoinForest) : Nat := t.nodes.length

def node (t : JoinForest) (id : Nat) : Except QueryError ForestNode :=
  match t.nodes[id]? with
  | some n => .ok n
  | none => .error (.nodeUnknown id)

def contains (t : JoinForest) (id : Nat) : Bool := id < t.size

def findAlias? (t : JoinForest) (label : String) : Option Nat :=
  (t.nodes.find? fun n => n.label == label).map ForestNode.id

def roots (t : JoinForest) : List ForestNode := t.nodes.filter ForestNode.isRoot

def children (t : JoinForest) (parent : Nat) : List ForestNode :=
  t.nodes.filter fun n => n.parent? == some parent

/-- Appends a node under the next number. -/
def append (t : JoinForest) (label entity : String) (origin : JoinOrigin) (mode : JoinMode)
    (fetch : Bool) (on : List Predicate) : JoinForest :=
  ⟨t.nodes ++ [⟨t.size, label, entity, origin, mode, fetch, on⟩]⟩

def withRoot (t : JoinForest) (entity label : String) : JoinForest :=
  t.append label entity .root .inner false []

/-- The new node is of the entity that the attribute leads to. -/
def withRelation (t : JoinForest) (parent : Nat) (a : Attribute) (label : String) (mode : JoinMode)
    (fetch : Bool) : Except QueryError JoinForest := do
  let _ ← t.node parent
  match a.target? with
  | none => .error (.schema (.basicJoined a.name))
  | some entity =>
    .ok (t.append label entity (.relation parent (.ofAttribute a)) mode fetch [])

def withEntity (t : JoinForest) (parent : Nat) (entity label : String) (mode : JoinMode)
    (on : List Predicate) : Except QueryError JoinForest := do
  let _ ← t.node parent
  .ok (t.append label entity (.entity parent) mode false on)

/-- A root has no condition. -/
def withCondition (t : JoinForest) (id : Nat) (p : Predicate) : Except QueryError JoinForest := do
  let n ← t.node id
  if n.isRoot then .error (.predicate (.rootCondition n.label))
  else .ok ⟨t.nodes.set id { n with on := n.on ++ [p] }⟩

end JoinForest

end EntityQuery
