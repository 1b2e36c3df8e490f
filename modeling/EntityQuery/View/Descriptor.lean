import EntityQuery.Json.Reader
import EntityQuery.Json.Record
import EntityQuery.View.Collection
import EntityQuery.View.Error

/-! Declarations of view types. -/
namespace EntityQuery

/-- Where a view attribute comes from: a path of its entity, or a provider that correlates
with `basis`. -/
inductive AttributeSource where
  | path (mapping : String)
  | correlated (provider basis result : String) (fetches : List String)
deriving DecidableEq

structure AttributeDescriptor where
  name : String
  source : AttributeSource
  isId : Bool
  updatable : Bool
  collection : Option CollectionForm
  ignoresIndex : Bool
  ordered : Bool
deriving DecidableEq

structure ViewDescriptor where
  name : String
  entity : String
  attributes : List AttributeDescriptor
deriving DecidableEq

open Json (required optional orDefault record? strings?)

namespace CollectionForm

def ofWord? : String → Option CollectionForm
  | "list" => some list
  | "set" => some set
  | "sorted_set" => some sortedSet
  | "map" => some map
  | _ => none

def ofJson (json : Json) : Option CollectionForm := do ofWord? (← Json.word? json)

end CollectionForm

namespace AttributeSource

/-- Is the source correlated? Sources are told apart by a word or by its number. -/
def isCorrelatedKind : Json → Option Bool
  | .string "path" => some false
  | .string "correlated" => some true
  | json =>
    match json.asInt? with
    | some 0 => some false
    | some 1 => some true
    | _ => none

def ofJson (fields : List (String × Json)) : Option AttributeSource := do
  if ← required isCorrelatedKind fields "kind" then
    let provider ← required Json.asString? fields "provider"
    let basis ← required Json.asString? fields "basis"
    let result ← orDefault "" Json.asString? fields "result"
    let fetches ← orDefault [] strings? fields "fetches"
    some (.correlated provider basis result fetches)
  else
    some (.path (← required Json.asString? fields "mapping"))

end AttributeSource

namespace AttributeDescriptor

def ofJson (json : Json) : Option AttributeDescriptor := do
  let fields ← json.asEntireObject?
  let name ← required Json.asString? fields "name"
  let isId ← orDefault false Json.asBool? fields "id"
  let updatable ← orDefault false Json.asBool? fields "updatable"
  let collection ← optional CollectionForm.ofJson fields "collection"
  let ignoresIndex ← orDefault false Json.asBool? fields "ignore_index"
  let ordered ← orDefault false Json.asBool? fields "ordered"
  let source ← AttributeSource.ofJson fields
  some { name, source, isId, updatable, collection, ignoresIndex, ordered }

end AttributeDescriptor

namespace ViewDescriptor

def fieldNames : List String := ["name", "entity", "attributes"]

def ofJson (json : Json) : Option ViewDescriptor := do
  let fields ← record? fieldNames json
  let name ← required Json.asString? fields "name"
  let entity ← required Json.asString? fields "entity"
  let attributes ← (← required Json.asArray? fields "attributes").mapM AttributeDescriptor.ofJson
  some { name, entity, attributes }

def listOfJson (json : Json) : Except ViewError (List ViewDescriptor) :=
  match (do (← json.asArray?).mapM ofJson) with
  | some views => .ok views
  | none => .error (.declaration .unreadable)

def listOfText (text : String) : Except ViewError (List ViewDescriptor) :=
  match Json.parse? text with
  | some json => listOfJson json
  | none => .error (.declaration .unreadable)

end ViewDescriptor

end EntityQuery
