import EntityQuery.Dialect.Basic
import EntityQuery.Dialect.Shaping

/-! Set operations over rendered operands, ordered and limited as a whole. -/
namespace EntityQuery

inductive SetOperation where
  | union | unionAll | intersect | intersectAll | except | exceptAll
deriving DecidableEq

namespace SetOperation

def keyword : SetOperation → String
  | union => "UNION"
  | unionAll => "UNION ALL"
  | intersect => "INTERSECT"
  | intersectAll => "INTERSECT ALL"
  | except => "EXCEPT"
  | exceptAll => "EXCEPT ALL"

def isIntersection : SetOperation → Bool
  | intersect | intersectAll => true
  | _ => false

def isDifference : SetOperation → Bool
  | except | exceptAll => true
  | _ => false

end SetOperation

structure SetRequest where
  operation : SetOperation
  subquery : Bool
  operands : List String
  orderBy : List String
  limit : Option String
  offset : Option String
deriving DecidableEq

namespace SetRequest

/-- Does an order or a limit follow the operands? -/
def hasTail (r : SetRequest) : Bool := r.limit.isSome || !r.orderBy.isEmpty

end SetRequest

namespace Dialect

def supports (d : Dialect) (operation : SetOperation) : Bool :=
  (d.intersects || !operation.isIntersection) && (d.excepts || !operation.isDifference)

/-- An operand that starts with a parenthesis counts as grouped. -/
def operandText (d : Dialect) (outerClause : Bool) (operand : String) : String :=
  if d.groupsOperands && outerClause && operand.toList.head? != some '(' then s!"({operand})"
  else operand

def orderText (orderBy : List String) : String :=
  if orderBy.isEmpty then "" else " order by " ++ String.intercalate ", " orderBy

/-- Without operands there is nothing to order or to limit. -/
def setText (d : Dialect) (r : SetRequest) : String :=
  if r.operands.isEmpty then ""
  else
    String.intercalate s!"\n{r.operation.keyword}\n"
        (r.operands.map (d.operandText r.hasTail)) ++
      orderText r.orderBy ++ d.optionalLimit r.limit r.offset

/-- Writes a set operation behind `text`. -/
def combine (d : Dialect) (r : SetRequest) (text : String) : Shaped Unit :=
  if d.supports r.operation then
    ⟨text ++ opening r.subquery ++ d.setText r ++ closing r.subquery, .ok ()⟩
  else ⟨text, .error (.configuration (.setUnsupported r.operation.keyword d.name))⟩

end Dialect

end EntityQuery
