import EntityQuery.Json.Basic
import EntityQuery.Catalog

/-! Reading records from JSON. A record is an object whose known fields occur at most once,
or the list of all its fields in order; unknown members are passed over. `none` says that
a document is not of the expected form. -/
namespace EntityQuery.Json

/-- The members of a record with the fields `names`. -/
def record? (names : List String) : Json → Option (List (String × Json))
  | object members => some members
  | array items => if items.length = names.length then some (names.zip items) else none
  | _ => none

/-- The value of a member that may be absent; a member that repeats is refused. -/
def member? (members : List (String × Json)) (name : String) : Option (Option Json) :=
  match members.filter fun m => m.1 == name with
  | [] => some none
  | [m] => some (some m.2)
  | _ => none

def required {α : Type} (read : Json → Option α) (members : List (String × Json)) (name : String) :
    Option α := do
  read (← (← member? members name))

/-- An absent member and a null mean the same. -/
def optional {α : Type} (read : Json → Option α) (members : List (String × Json)) (name : String) :
    Option (Option α) := do
  match ← member? members name with
  | none => some none
  | some null => some none
  | some json => (read json).map some

/-- An absent member means `default`; a null does not. -/
def orDefault {α : Type} (default : α) (read : Json → Option α) (members : List (String × Json))
    (name : String) : Option α := do
  match ← member? members name with
  | none => some default
  | some json => read json

def strings? (json : Json) : Option (List String) := do
  (← json.asArray?).mapM asString?

/-- Of members that repeat the last counts. -/
def stringCatalog? (json : Json) : Option (Catalog String) := do
  let entries ← (← json.asObject?).mapM fun m => m.2.asString?.map (m.1, ·)
  some (Catalog.ofList entries)

/-- A word, or an object whose one member is that word with null. -/
def word? : Json → Option String
  | string s => some s
  | object [(s, null)] => some s
  | _ => none

end EntityQuery.Json
