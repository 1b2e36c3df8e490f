import EntityQuery.Schema.Attribute
import EntityQuery.Text.Identifier

/-! Entity schemas: entities by name, each with its table, its attributes and one of them
as its id, and the paths of attributes that start at an entity. -/
namespace EntityQuery

structure Entity where
  name : String
  table : String
  id : String
  attributes : List Attribute
deriving DecidableEq

namespace Entity

/-- Of attributes of one name the first counts. -/
def attribute? (e : Entity) (name : String) : Option Attribute :=
  e.attributes.find? fun a => a.name == name

end Entity

structure Schema where
  entities : Catalog Entity
deriving DecidableEq

namespace Schema

def empty : Schema := ⟨[]⟩

/-- Adds an entity that has its id attribute and a name of its own. -/
def add (s : Schema) (e : Entity) : Except QueryError Schema :=
  if (e.attribute? e.id).isNone then .error (.schema (.idMissing e.name e.id))
  else if s.entities.contains e.name then .error (.schema (.entityTwice e.name))
  else .ok ⟨s.entities.insert e.name e⟩

def ofEntities (entities : List Entity) : Except QueryError Schema :=
  entities.foldlM add empty

def entity? (s : Schema) (name : String) : Option Entity := s.entities.find? name

def entity (s : Schema) (name : String) : Except QueryError Entity :=
  match s.entity? name with
  | some e => .ok e
  | none => .error (.schema (.entityUnknown name))

def attributeOf (s : Schema) (entity name : String) : Except QueryError Attribute := do
  match (← s.entity entity).attribute? name with
  | some a => .ok a
  | none => .error (.schema (.attributeUnknown name entity))

/-- The attributes that the segments name, each an attribute of the entity that the one
before it leads to. -/
def walk (s : Schema) (path : String) : String → List String → Except QueryError (List Attribute)
  | _, [] => .ok []
  | entity, [segment] => do
    let a ← s.attributeOf entity segment
    .ok [a]
  | entity, segment :: rest => do
    let a ← s.attributeOf entity segment
    match a.target? with
    | none => .error (.schema (.basicInPath segment path))
    | some target =>
      let as ← s.walk path target rest
      .ok (a :: as)

def attributesAlong (s : Schema) (entity path : String) : Except QueryError (List Attribute) := do
  Text.checkPath path
  s.walk path entity (Text.segments path)

/-- Does the path end at a list that has indexes? Text that is no path does not. -/
def listsByIndex (s : Schema) (entity path : String) : Except QueryError Bool :=
  match Text.checkPath path with
  | .error _ => .ok false
  | .ok () => do
    let as ← s.attributesAlong entity path
    .ok (as.getLast?.any Attribute.listsByIndex)

def joinTable? (s : Schema) (entity name : String) : Option JoinTable := do
  let e ← s.entity? entity
  let a ← e.attribute? name
  a.joinTable?

end Schema

end EntityQuery
