import EntityQuery.Binary64.Decimal

/-! JSON documents as they are written: the members of an object keep their order and may
repeat, and a number keeps its decimal together with whether it is written as an integer. -/
namespace EntityQuery

/-- `void` is a part that is well formed and stands for nothing: a string with half of a
surrogate pair, a number beyond the floating-point range, what is nested too deep. A
document may have such parts where nobody reads them. -/
inductive Json where
  | void
  | null
  | bool (b : Bool)
  | number (d : Decimal) (whole : Bool)
  | string (s : String)
  | array (items : List Json)
  | object (members : List (String × Json))
deriving Inhabited

namespace Json

/-- The number that an integer token writes; `-0` is no integer. -/
def asInt? : Json → Option Int
  | number d true =>
    if d.negative && d.coefficient == 0 then none
    else some (if d.negative then -(d.coefficient : Int) else d.coefficient)
  | _ => none

def asString? : Json → Option String
  | string s => some s
  | _ => none

def asBool? : Json → Option Bool
  | bool b => some b
  | _ => none

def asArray? : Json → Option (List Json)
  | array items => some items
  | _ => none

def asObject? : Json → Option (List (String × Json))
  | object members => some members
  | _ => none

mutual

/-- Has every part of the document a meaning? -/
def isEntire : Json → Bool
  | void => false
  | array items => areEntire items
  | object members => haveEntire members
  | _ => true

def areEntire : List Json → Bool
  | [] => true
  | json :: rest => isEntire json && areEntire rest

def haveEntire : List (String × Json) → Bool
  | [] => true
  | (_, json) :: rest => isEntire json && haveEntire rest

end

/-- The members of an object every part of which has a meaning. -/
def asEntireObject? (json : Json) : Option (List (String × Json)) :=
  if json.isEntire then json.asObject? else none

end Json

end EntityQuery
