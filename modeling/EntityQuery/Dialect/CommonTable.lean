import EntityQuery.Dialect.Basic
import EntityQuery.Text.Identifier

/-! Common table expressions and the WITH clause that defines them. -/
namespace EntityQuery

/-- A table that a query defines for itself. -/
structure CommonTable where
  name : String
  columns : List String
  body : String
  recursive : Bool
deriving DecidableEq

namespace CommonTable

/-- The names of the table and of its columns are identifiers. -/
def define (name : String) (columns : List String) (body : String) (recursive : Bool) :
    Except QueryError CommonTable := do
  Text.checkIdentifier name
  columns.forM Text.checkIdentifier
  .ok { name, columns, body, recursive }

def text (t : CommonTable) : String :=
  let columns := String.intercalate ", " t.columns
  s!"{t.name}({columns}) AS(\n{t.body}\n)"

end CommonTable

namespace Dialect

def withKeyword (recursive : Bool) : String := if recursive then "with recursive" else "with"

/-- The WITH clause of the tables, recursive if one of them is; none for no tables. -/
def withClause (d : Dialect) (tables : List CommonTable) : Except QueryError (Option String) :=
  if tables.isEmpty then .ok none
  else if !d.allowsWith then .error (.configuration (.withUnsupported d.name))
  else
    let definitions := String.intercalate ",\n" (tables.map CommonTable.text)
    .ok (some (withKeyword (tables.any (·.recursive)) ++ " " ++ definitions ++ "\n"))

end Dialect

end EntityQuery
