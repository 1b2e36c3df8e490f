import EntityQuery.Query.Build
import EntityQuery.View.Error

/-! Correlations: entities that no relation leads to, joined to a query by a provider, with
relations fetched from them and one item selected. -/
namespace EntityQuery

/-- A query in the hands of a provider, which joins one entity to it under `label`. -/
structure CorrelationDraft where
  query : Query
  base : String
  label : String
  correlated : Option String

namespace CorrelationDraft

def start (query : Query) (base label : String) : CorrelationDraft :=
  ⟨query, base, label, none⟩

def correlate (b : CorrelationDraft) (entity : String) (on : List Condition) :
    Except ViewError CorrelationDraft :=
  match b.correlated with
  | some present => .error (.declaration (.correlatedTwice b.label present))
  | none => do
    let query ← ViewError.ofQuery (b.query.joinEntity b.base entity b.label .left on)
    .ok { b with query, correlated := some entity }

end CorrelationDraft

/-- A provider is given the text of what it correlates with. -/
structure CorrelationProvider where
  apply : CorrelationDraft → String → Except ViewError CorrelationDraft

namespace CorrelationProvider

/-- Joins an entity one of whose attributes equals the basis. -/
def ofEntity (entity name : String) : CorrelationProvider where
  apply b basis := b.correlate entity [.text s!"{b.label}.{name} = {basis}"]

end CorrelationProvider

abbrev CorrelationRegistry := Catalog CorrelationProvider

namespace CorrelationRegistry

def register (r : CorrelationRegistry) (name : String) (p : CorrelationProvider) :
    Except ViewError CorrelationRegistry :=
  if Catalog.contains r name then .error (.declaration (.providerTwice name))
  else .ok (Catalog.insert name p r)

end CorrelationRegistry

/-- How a correlated attribute is fetched: what it is correlated with, read from `base`,
the relation paths to fetch, and the path of the result. -/
structure CorrelationMapper where
  providerLabel : String
  provider : CorrelationProvider
  base : String
  name : String
  basis : String
  result : String
  fetches : List String

namespace CorrelationMapper

/-- A path that starts at an alias; the empty path is the alias itself. -/
def behindAlias (label path : String) : String := if path = "" then label else s!"{label}.{path}"

/-- Joins the relations that the segments name, each from the one before it. -/
def fetchSegments (q : Query) (parent : String) : List String → Except QueryError Query
  | [] => .ok q
  | s :: rest => do
    let label := q.scope.generate s!"{parent}_{s}"
    let q ← q.join s!"{parent}.{s}" label .left true
    fetchSegments q label rest

def fetchPaths (label : String) (q : Query) (paths : List String) : Except QueryError Query :=
  paths.foldlM (fun q path => fetchSegments q label (Text.segments path)) q

/-- A provider that limits the results of the query is refused. -/
def checkLimit (m : CorrelationMapper) (before after : Query) : Except ViewError Unit :=
  if after.offset = before.offset ∧ after.limit = before.limit then .ok ()
  else .error (.correlationLimit m.providerLabel)

def apply (m : CorrelationMapper) (q : Query) : Except ViewError Query := do
  let label := q.scope.generate s!"corr_{m.name}"
  let builder ← m.provider.apply (.start q m.base label) (behindAlias m.base m.basis)
  m.checkLimit q builder.query
  let fetched ← ViewError.ofQuery (fetchPaths label builder.query m.fetches)
  ViewError.ofQuery (fetched.selectByPath (behindAlias label m.result) none)

end CorrelationMapper

end EntityQuery
