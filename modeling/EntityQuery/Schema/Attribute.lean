import EntityQuery.Schema.JoinTable

/-! Attributes of entities: columns, references to one entity, and collections. -/
namespace EntityQuery

inductive PluralKind where
  | list | set | map | bag
deriving DecidableEq

namespace PluralKind

def title : PluralKind → String
  | list => "List"
  | set => "Set"
  | map => "Map"
  | bag => "Bag"

def word : PluralKind → String
  | list => "list"
  | set => "set"
  | map => "map"
  | bag => "bag"

def ofWord? : String → Option PluralKind
  | "list" => some list
  | "set" => some set
  | "map" => some map
  | "bag" => some bag
  | _ => none

end PluralKind

inductive Mapping where
  | basic (column : Option String)
  | association (target : String)
  | plural (collection : PluralKind) (target : String) (index : Option String)
      (joinTable : Option JoinTable)
deriving DecidableEq

namespace Mapping

def word : Mapping → String
  | basic _ => "basic"
  | association _ => "association"
  | plural .. => "plural"

/-- The column of the attribute, or the one that holds the indexes of a collection. -/
def column? : Mapping → Option String
  | basic column => column
  | association _ => none
  | plural _ _ index _ => index

end Mapping

structure Attribute where
  name : String
  mapping : Mapping
deriving DecidableEq

namespace Attribute

def basic (name : String) : Attribute := ⟨name, .basic none⟩

def association (name target : String) : Attribute := ⟨name, .association target⟩

def plural (name : String) (collection : PluralKind) (target : String) : Attribute :=
  ⟨name, .plural collection target none none⟩

/-- Only a collection has an index column. -/
def indexedBy (a : Attribute) (column : String) : Attribute :=
  match a.mapping with
  | .plural collection target _ table => ⟨a.name, .plural collection target (some column) table⟩
  | _ => a

/-- Only a collection has a join table. -/
def storedIn (a : Attribute) (table : JoinTable) : Attribute :=
  match a.mapping with
  | .plural collection target index _ => ⟨a.name, .plural collection target index (some table)⟩
  | _ => a

def collection? (a : Attribute) : Option PluralKind :=
  match a.mapping with
  | .plural collection .. => some collection
  | _ => none

/-- The entity that the attribute leads to. -/
def target? (a : Attribute) : Option String :=
  match a.mapping with
  | .basic _ => none
  | .association target => some target
  | .plural _ target .. => some target

def joinTable? (a : Attribute) : Option JoinTable :=
  match a.mapping with
  | .plural _ _ _ table => table
  | _ => none

/-- Maps have keys. A list has indexes if a column holds them, its own or one of its
join table. -/
def isIndexed (a : Attribute) : Bool :=
  match a.mapping with
  | .plural .map .. => true
  | .plural .list _ index table => index.isSome || table.any JoinTable.hasKeys
  | _ => false

def listsByIndex (a : Attribute) : Bool := a.collection? = some .list && a.isIndexed

def text (a : Attribute) : String :=
  match a.mapping with
  | .basic none => a.name
  | .basic (some column) => s!"{a.name} @{column}"
  | .association target => s!"{a.name} -> {target}"
  | .plural collection target .. => s!"{a.name} -> {collection.title}<{target}>"

end Attribute

end EntityQuery
