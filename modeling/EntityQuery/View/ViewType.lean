import EntityQuery.View.Correlation
import EntityQuery.View.Descriptor

/-! View types: declarations that were checked against the schema and the providers of
correlations, and the query that reads a view. -/
namespace EntityQuery

/-- The position is that of the declaration and of the value in an instance. A list is
`indexed` if the schema keeps indexes for it, and otherwise `ordered`. -/
structure ViewAttribute where
  name : String
  position : Nat
  source : AttributeSource
  isId : Bool
  updatable : Bool
  collection : Option CollectionForm
  indexed : Bool
  ordered : Bool
  sorted : Bool
  mapper : Option CorrelationMapper

namespace ViewAttribute

def path? (a : ViewAttribute) : Option String :=
  match a.source with
  | .path mapping => some mapping
  | .correlated .. => none

/-- An id is never written. -/
def isWritable (a : ViewAttribute) : Bool := a.updatable && !a.isId

end ViewAttribute

structure ViewType where
  name : String
  entity : String
  attributes : List ViewAttribute

namespace ViewType

def attribute? (v : ViewType) (name : String) : Option ViewAttribute :=
  v.attributes.find? fun a => a.name == name

def id? (v : ViewType) : Option ViewAttribute := v.attributes.find? (·.isId)

/-- The attributes that an update writes, in the order of their declaration. -/
def writable (v : ViewType) : List ViewAttribute := v.attributes.filter ViewAttribute.isWritable

def canBeWritten (v : ViewType) : Bool := v.attributes.any ViewAttribute.isWritable

/-- A path has to exist in the schema, and a provider in the registry. -/
def mapperFor (s : Schema) (r : CorrelationRegistry) (d : ViewDescriptor)
    (a : AttributeDescriptor) : Except ViewError (Option CorrelationMapper) :=
  match a.source with
  | .path mapping => do
    let _ ← ViewError.ofQuery (s.attributesAlong d.entity mapping)
    .ok none
  | .correlated provider basis result fetches =>
    if a.updatable then .error (.declaration (.correlatedUpdatable a.name d.name))
    else
      match Catalog.find? provider r with
      | none => .error (.declaration (.providerUnknown provider d.name a.name))
      | some p => .ok (some ⟨provider, p, "", a.name, basis, result, fetches⟩)

def readsIndex (s : Schema) (entity : String) (a : AttributeDescriptor) : Except ViewError Bool :=
  match a.source, a.ignoresIndex with
  | .path mapping, false => ViewError.ofQuery (s.listsByIndex entity mapping)
  | _, _ => .ok false

/-- Whether the attribute is indexed, ordered and sorted. -/
def arrangement (s : Schema) (entity : String) (a : AttributeDescriptor) :
    Except ViewError (Bool × Bool × Bool) :=
  match a.collection with
  | some .list => do
    let indexed ← readsIndex s entity a
    .ok (indexed, !indexed, false)
  | some .sortedSet => .ok (false, false, true)
  | some .set | some .map => .ok (false, a.ordered, false)
  | none => .ok (false, false, false)

/-- Checks the next declared attribute against those before it. -/
def addAttribute (s : Schema) (r : CorrelationRegistry) (d : ViewDescriptor)
    (built : List ViewAttribute) (a : AttributeDescriptor) :
    Except ViewError (List ViewAttribute) :=
  if built.any (fun b => b.name == a.name) then
    .error (.declaration (.attributeTwice a.name d.name))
  else if a.isId && built.any (·.isId) then .error (.declaration (.idTwice d.name))
  else if a.updatable && a.collection.isSome then
    .error (.declaration (.collectionUpdatable a.name d.name))
  else do
    let mapper ← mapperFor s r d a
    let (indexed, ordered, sorted) ← arrangement s d.entity a
    .ok (built ++ [⟨a.name, built.length, a.source, a.isId, a.updatable, a.collection, indexed,
      ordered, sorted, mapper⟩])

def build (s : Schema) (r : CorrelationRegistry) (d : ViewDescriptor) :
    Except ViewError ViewType := do
  let _ ← ViewError.ofQuery (s.entity d.entity)
  let attributes ← d.attributes.foldlM (addAttribute s r d) []
  let view : ViewType := ⟨d.name, d.entity, attributes⟩
  if view.canBeWritten && view.id?.isNone then .error (.declaration (.idNeeded d.name))
  else .ok view

/-- Selects what an attribute holds. -/
def selectAttribute (label : String) (q : Query) (a : ViewAttribute) : Except ViewError Query :=
  match a.source, a.mapper with
  | .path mapping, _ => ViewError.ofQuery (q.selectByPath s!"{label}.{mapping}" none)
  | .correlated .., some m => { m with base := label }.apply q
  | .correlated provider .., none => .error (.declaration (.mapperMissing a.name provider))

/-- The query that reads the attributes of the view in their order. -/
def query (v : ViewType) (basis : QueryBasis) (label : String) : Except ViewError Query := do
  let q ← ViewError.ofQuery (Query.start basis v.entity label)
  v.attributes.foldlM (selectAttribute label) q

end ViewType

/-- View types by name. -/
structure ViewSchema where
  views : Catalog ViewType

namespace ViewSchema

def add (s : Schema) (r : CorrelationRegistry) (vs : ViewSchema) (d : ViewDescriptor) :
    Except ViewError ViewSchema := do
  let view ← ViewType.build s r d
  if vs.views.contains view.name then .error (.declaration (.viewTwice view.name))
  else .ok ⟨vs.views.insert view.name view⟩

def build (s : Schema) (r : CorrelationRegistry) (ds : List ViewDescriptor) :
    Except ViewError ViewSchema :=
  ds.foldlM (add s r) ⟨[]⟩

def view (vs : ViewSchema) (name : String) : Except ViewError ViewType :=
  match vs.views.find? name with
  | some v => .ok v
  | none => .error (.declaration (.viewUnknown name))

end ViewSchema

end EntityQuery
