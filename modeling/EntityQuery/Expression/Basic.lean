import EntityQuery.Text.Letters
import EntityQuery.Value.Basic

/-! Expressions of queries. A path is free, a text that may name a select alias, or bound
to a node of a join forest, from which it reads one field or the node itself. -/
namespace EntityQuery

/-- A `keyed` path stands for the key or index of its node; a `wrapped` one has its
collection value function already around it. -/
structure Path where
  segments : List String
  node : Option Nat
  field : Option String
  keyed : Bool
  wrapped : Bool
deriving DecidableEq

inductive Literal where
  | text (s : String)
  | int (n : Int64)
  /-- The number as it is written. -/
  | decimal (s : String)
  | bool (b : Bool)
  | null
deriving DecidableEq

/-- A subquery selects from one entity, joins relation paths under aliases and requires
equalities. -/
inductive Expression where
  | path (p : Path)
  | call (function : String) (arguments : List Expression)
  | parameter (name : Option String) (value : Option Value)
  | element (base : Path) (index : Expression)
  | literal (l : Literal)
  | subquery (selected : Expression) (entity label : String) (joins : List (String × String))
      (conditions : List (Expression × Expression))

instance : Inhabited Expression := ⟨.literal .null⟩

/-- How a call is rendered: as its argument, as a call of the function that its first
argument names, or under its own name. -/
inductive CallForm where
  | outer | dynamic | ordinary
deriving DecidableEq

namespace CallForm

def ofFunction (name : String) : CallForm :=
  if Text.sameLetters name "OUTER" then outer
  else if Text.sameLetters name "FUNCTION" then dynamic
  else ordinary

def word : CallForm → String
  | outer => "outer"
  | dynamic => "dynamic"
  | ordinary => "ordinary"

end CallForm

namespace Expression

def isNullLiteral : Expression → Bool
  | literal .null => true
  | _ => false

mutual

/-- Equality of form, with `Value.same` on the values that parameters carry. -/
def same : Expression → Expression → Bool
  | path p, path q => p == q
  | call f as, call g bs => f == g && sameList as bs
  | parameter n v, parameter m w => n == m && v == w
  | element p i, element q j => p == q && same i j
  | literal l, literal k => l == k
  | subquery s e a js cs, subquery t f b ks ds =>
    same s t && e == f && a == b && js == ks && samePairs cs ds
  | _, _ => false

def sameList : List Expression → List Expression → Bool
  | [], [] => true
  | a :: as, b :: bs => same a b && sameList as bs
  | _, _ => false

def samePairs : List (Expression × Expression) → List (Expression × Expression) → Bool
  | [], [] => true
  | (a, b) :: cs, (c, d) :: ds => same a c && same b d && samePairs cs ds
  | _, _ => false

end

instance : BEq Expression := ⟨same⟩

end Expression

end EntityQuery
