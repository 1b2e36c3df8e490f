import EntityQuery.Catalog
import EntityQuery.Error
import EntityQuery.Expression.Text

/-! Aliases of a query and of the queries around it. An alias names a select item or a join
node. No alias is given twice in a scope or hides one of an outer scope. -/
namespace EntityQuery

inductive AliasTarget where
  | item (e : Expression)
  | join (node : Nat)

/-- The aliases of the innermost query and, from the inside out, of those around it. -/
structure AliasScope where
  own : Catalog AliasTarget
  outer : List (Catalog AliasTarget)

namespace AliasScope

def empty : AliasScope := ⟨[], []⟩

/-- The scope of a query inside the one of `s`. -/
def child (s : AliasScope) : AliasScope := ⟨[], s.own :: s.outer⟩

def levels (s : AliasScope) : List (Catalog AliasTarget) := s.own :: s.outer

def find? (s : AliasScope) (label : String) : Option AliasTarget :=
  s.levels.findSome? (Catalog.find? label)

def isAvailable (s : AliasScope) (label : String) : Bool := (s.find? label).isNone

/-- The number of all aliases in sight. -/
def size (s : AliasScope) : Nat := s.levels.flatten.length

def register (s : AliasScope) (label : String) (target : AliasTarget) :
    Except QueryError AliasScope :=
  if s.isAvailable label then .ok { s with own := s.own.insert label target }
  else .error (.aliasTaken label)

def numbered (base : String) (i : Nat) : String := s!"{base}_{i}"

/-- The first available alias of those numbered `i` and above, of which `fuel` are tried. -/
def firstAvailable (s : AliasScope) (base : String) : Nat → Nat → String
  | 0, i => numbered base i
  | fuel + 1, i =>
    if s.isAvailable (numbered base i) then numbered base i else s.firstAvailable base fuel (i + 1)

/-- The base itself if it is available, otherwise the first number that makes it so. Of
`size` numbered aliases one is free, for the base takes one. -/
def generate (s : AliasScope) (base : String) : String :=
  if s.isAvailable base then base else s.firstAvailable base s.size 1

/-- The path that a select alias stands for. -/
def pathOf? (s : AliasScope) (label : String) : Option Path :=
  match s.find? label with
  | some (.item (.path p)) => some p
  | _ => none

/-- Replaces a free path that is a select alias of a path by that path, again and again; an
alias of itself stays. `none` says that `fuel` steps do not lead to an end. -/
def follow (s : AliasScope) : Nat → Path → Option Path
  | 0, _ => none
  | fuel + 1, p =>
    match p.node, s.pathOf? p.text with
    | none, some q => if q.node.isSome || q.text != p.text then s.follow fuel q else some p
    | _, _ => some p

/-- Where the aliases that start at `p` end. More steps than there are aliases go round. -/
def resolve (s : AliasScope) (p : Path) : Except QueryError Path :=
  match s.follow (s.size + 1) p with
  | some q => .ok q
  | none => .error (.aliasEndless p.text)

end AliasScope

end EntityQuery
