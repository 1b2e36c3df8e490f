import EntityQuery.Catalog
import EntityQuery.Dialect.ModifiedTable
import EntityQuery.Dialect.Basic

/-! Shaping of a rendered statement for its place and its dialect: WITH clause, limit,
returned columns, parentheses, and the state that a modification leaves. -/
namespace EntityQuery

/-- `oldState` and `newState` name the tables under which the rows before and after a
modification are asked for; the old state needs no shaping. -/
structure ShapeRequest where
  kind : StatementKind
  subquery : Bool
  embedded : Bool
  withClause : Option String
  limit : Option String
  offset : Option String
  returning : Option (List String)
  oldState : Option String
  newState : Option String
deriving DecidableEq

namespace ShapeRequest

/-- A plain statement of a kind. -/
def ofKind (kind : StatementKind) : ShapeRequest :=
  ⟨kind, false, false, none, none, none, none, none, none⟩

end ShapeRequest

/-- The statement text that shaping leaves, whether it fails or not, and what comes of it. -/
structure Shaped (α : Type) where
  text : String
  outcome : Except QueryError α

namespace Dialect

def opening (subquery : Bool) : String := if subquery then "(" else ""

def closing (subquery : Bool) : String := if subquery then ")" else ""

def selectFrom (columns : List String) (table : String) : String :=
  let list := String.intercalate "," columns
  s!"select {list} from {table}"

/-- The rows after a modification: those that it returns together with those of its table,
or for a deletion the rows of the table without those that it returns. -/
def shapeNewState (r : ShapeRequest) (state : String) (columns : List String) (sql : String) :
    Shaped (Catalog String) :=
  let modification := sql ++ " returning *"
  let returned := selectFrom columns state
  let before := opening r.subquery ++ if r.kind = .delete then "" else returned ++ "\nunion\n"
  let after := (if r.kind = .delete then "\nexcept\n" ++ returned else "") ++ closing r.subquery
  match r.kind.modifiedTable modification with
  | .error e => ⟨before, .error e⟩
  | .ok table =>
    ⟨before ++ " " ++ selectFrom columns table ++ after, .ok [(state, modification)]⟩

/-- The columns that an embedded modification returns, where the dialect has them. -/
def returningText (d : Dialect) (r : ShapeRequest) : String :=
  match r.returning with
  | some columns =>
    if d.returnsColumns && r.embedded then " returning " ++ String.intercalate "," columns else ""
  | none => ""

def shapePlain (d : Dialect) (r : ShapeRequest) (sql : String) : Shaped (Catalog String) :=
  ⟨r.withClause.getD "" ++ opening r.subquery ++ sql ++ d.optionalLimit r.limit r.offset ++
    d.returningText r ++ closing r.subquery, .ok []⟩

/-- On success the outcome is the tables to be defined besides, by name. -/
def shape (d : Dialect) (r : ShapeRequest) (sql : String) : Shaped (Catalog String) :=
  match d.modifiesInWith, r.newState, r.returning with
  | true, some state, some columns => shapeNewState r state columns sql
  | true, some state, none => ⟨sql, .error (.configuration (.returningMissing state))⟩
  | _, _, _ => d.shapePlain r sql

end Dialect

end EntityQuery
