import EntityQuery.Binary64.Basic
import EntityQuery.Catalog

/-! Values of parameters, of attributes and of loaded entity objects. -/
namespace EntityQuery

inductive ValueKind where
  | null | bool | number | text | list | object
deriving DecidableEq

namespace ValueKind

def word : ValueKind → String
  | null => "null"
  | bool => "bool"
  | number => "number"
  | text => "text"
  | list => "list"
  | object => "object"

/-- Kinds in the order in which values of different kinds are sorted. -/
def rank : ValueKind → Nat
  | null => 0
  | bool => 1
  | number => 2
  | text => 3
  | list => 4
  | object => 5

end ValueKind

/-- Whole numbers have 64 bits; the fields of an object are a catalog. -/
inductive Value where
  | null
  | bool (b : Bool)
  | int (n : Int64)
  | float (x : Binary64)
  | text (s : String)
  | list (items : List Value)
  | object (fields : List (String × Value))
deriving Inhabited

namespace Value

def kind : Value → ValueKind
  | null => .null
  | bool _ => .bool
  | int _ | float _ => .number
  | text _ => .text
  | list _ => .list
  | object _ => .object

def isNull : Value → Bool
  | null => true
  | _ => false

def isNumber (v : Value) : Bool := v.kind = .number

def asText? : Value → Option String
  | text s => some s
  | _ => none

/-- The whole part of a number; a truth value counts as 0 or 1. -/
def asInt? : Value → Option Int64
  | int n => some n
  | float x => x.toInt64?
  | bool b => some (if b then 1 else 0)
  | _ => none

def asList? : Value → Option (List Value)
  | list items => some items
  | _ => none

def asObject? : Value → Option (Catalog Value)
  | object fields => some fields
  | _ => none

mutual

/-- Equality of values of the same form. What is not a number differs from itself, and a
whole number differs from a floating-point one. -/
def same : Value → Value → Bool
  | null, null => true
  | bool a, bool b => a == b
  | int a, int b => a == b
  | float a, float b => a.sameNumber b
  | text a, text b => a == b
  | list a, list b => sameItems a b
  | object a, object b => sameFields a b
  | _, _ => false

def sameItems : List Value → List Value → Bool
  | [], [] => true
  | x :: xs, y :: ys => same x y && sameItems xs ys
  | _, _ => false

def sameFields : List (String × Value) → List (String × Value) → Bool
  | [], [] => true
  | (k, x) :: xs, (l, y) :: ys => k == l && same x y && sameFields xs ys
  | _, _ => false

end

instance : BEq Value := ⟨same⟩

end Value

end EntityQuery
