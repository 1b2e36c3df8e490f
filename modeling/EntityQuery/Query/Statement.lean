import EntityQuery.Dialect.CommonTable
import EntityQuery.Dialect.Shaping
import EntityQuery.Query.Text

/-! Queries as statements of a dialect, with common tables and limits. -/
namespace EntityQuery

/-- `tables` are those that the dialect had to define besides. -/
structure Statement where
  sql : String
  parameters : Catalog Value
  tables : Catalog String

namespace Query

/-- An offset needs a limit. -/
def checkLimit (q : Query) : Except QueryError Unit :=
  if q.limit.isNone && q.offset.isSome then
    .error (.configuration .offsetWithoutLimit)
  else .ok ()

def shapeRequest (q : Query) (withClause : Option String) : ShapeRequest :=
  { ShapeRequest.ofKind .select with
    withClause
    limit := q.limit.map toString
    offset := q.offset.map toString }

def statement (q : Query) (d : Dialect) (tables : List CommonTable) :
    Except QueryError Statement := do
  let text ← q.text
  q.checkLimit
  let withClause ← d.withClause tables
  let shaped := d.shape (q.shapeRequest withClause) text
  let extra ← shaped.outcome
  .ok { sql := shaped.text, parameters := q.parameters, tables := extra }

end Query

end EntityQuery
