import EntityQuery.Json.Reader
import EntityQuery.Json.Record
import EntityQuery.Schema.Basic

/-! Schemas from JSON: a list of entities. An attribute has its `kind` as a word or as the
number of the word, and the fields of that kind beside it; every part of it is read, also
one that no field names. -/
namespace EntityQuery

open Json (required optional record? strings? stringCatalog?)

namespace JoinTable

def fieldNames : List String :=
  ["table_name", "id_attribute_names", "id_column_mappings", "key_column_mappings",
    "key_column_types", "target_attribute_names", "target_column_mappings"]

def ofJson (json : Json) : Option JoinTable := do
  let fields ← record? fieldNames json
  let table ← required Json.asString? fields "table_name"
  let ids ← required strings? fields "id_attribute_names"
  let idColumns ← required stringCatalog? fields "id_column_mappings"
  let keyColumns ← optional stringCatalog? fields "key_column_mappings"
  let keyTypes ← optional stringCatalog? fields "key_column_types"
  let targets ← required strings? fields "target_attribute_names"
  let targetColumns ← required stringCatalog? fields "target_column_mappings"
  some
    { table, idColumns, keyColumns, keyTypes, targetColumns
      ids := Catalog.sortedNames ids
      targets := Catalog.sortedNames targets }

end JoinTable

namespace PluralKind

/-- A word, or an object whose one member is that word with null or with nothing in it. -/
def ofJson : Json → Option PluralKind
  | .object [(word, .object [])] => ofWord? word
  | json => (Json.word? json).bind ofWord?

end PluralKind

namespace Mapping

/-- The kinds of attribute in the order of their numbers. -/
inductive Form where
  | basic | association | plural

def Form.ofJson : Json → Option Form
  | .string "basic" => some .basic
  | .string "association" => some .association
  | .string "plural" => some .plural
  | json =>
    match json.asInt? with
    | some 0 => some .basic
    | some 1 => some .association
    | some 2 => some .plural
    | _ => none

def ofJson (fields : List (String × Json)) : Option Mapping := do
  match ← required Form.ofJson fields "kind" with
  | .basic => do some (.basic (← optional Json.asString? fields "column"))
  | .association => do some (.association (← required Json.asString? fields "target"))
  | .plural => do
    let collection ← required PluralKind.ofJson fields "collection"
    let target ← required Json.asString? fields "target"
    let index ← optional Json.asString? fields "index_column"
    let table ← optional JoinTable.ofJson fields "join_table"
    some (.plural collection target index table)

end Mapping

namespace Attribute

def ofJson (json : Json) : Option Attribute := do
  let fields ← json.asEntireObject?
  let name ← required Json.asString? fields "name"
  some ⟨name, ← Mapping.ofJson fields⟩

end Attribute

namespace Entity

def fieldNames : List String := ["name", "table", "id_attribute", "attributes"]

def ofJson (json : Json) : Option Entity := do
  let fields ← record? fieldNames json
  let name ← required Json.asString? fields "name"
  let table ← required Json.asString? fields "table"
  let id ← required Json.asString? fields "id_attribute"
  let attributes ← (← required Json.asArray? fields "attributes").mapM Attribute.ofJson
  some { name, table, id, attributes }

end Entity

namespace Schema

def ofJson (json : Json) : Except QueryError Schema :=
  match (do (← json.asArray?).mapM Entity.ofJson) with
  | some entities => ofEntities entities
  | none => .error (.schema .unreadable)

def ofText (text : String) : Except QueryError Schema :=
  match Json.parse? text with
  | some json => ofJson json
  | none => .error (.schema .unreadable)

end Schema

end EntityQuery
