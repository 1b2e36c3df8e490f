import EntityQuery.Text.Letters

/-! The database functions that a query may call by name, whatever the letter case. -/
namespace EntityQuery

/-- Names in small letters, none twice. -/
structure FunctionNames where
  names : List String
deriving DecidableEq

namespace FunctionNames

def empty : FunctionNames := ⟨[]⟩

def contains (r : FunctionNames) (name : String) : Bool := r.names.contains (Text.lower name)

def register (r : FunctionNames) (name : String) : FunctionNames :=
  if r.contains name then r else ⟨r.names ++ [Text.lower name]⟩

def ofNames (names : List String) : FunctionNames := names.foldl register empty

def size (r : FunctionNames) : Nat := r.names.length

end FunctionNames

end EntityQuery
