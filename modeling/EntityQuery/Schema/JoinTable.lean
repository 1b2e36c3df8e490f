import EntityQuery.Catalog

/-! Tables that connect an owner with the elements of a collection. -/
namespace EntityQuery

/-- Columns of the join table, each with the column that it refers to: of the owner (ids),
of the key or index (keys) or of the element (targets). The attribute names are in order. -/
structure JoinTable where
  table : String
  ids : List String
  idColumns : Catalog String
  keyColumns : Option (Catalog String)
  keyTypes : Option (Catalog String)
  targets : List String
  targetColumns : Catalog String
deriving DecidableEq

namespace JoinTable

/-- Does the table hold a map key or a list index? -/
def hasKeys (t : JoinTable) : Bool :=
  match t.keyColumns with
  | some columns => !columns.isEmpty
  | none => false

end JoinTable

end EntityQuery
