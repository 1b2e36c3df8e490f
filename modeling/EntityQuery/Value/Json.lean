import EntityQuery.Value.Basic
import EntityQuery.Json.Reader

/-! Values from JSON. An integer of 64 bits is a whole number and every other number is
floating-point; one too large for that has no value. -/
namespace EntityQuery.Value

/-- Is the integer one of 64 bits? -/
def isInt64 (n : Int) : Bool := Int64.minValue.toInt ≤ n && n ≤ Int64.maxValue.toInt

def ofNumber (d : Decimal) (json : EntityQuery.Json) : Option Value :=
  match json.asInt? with
  | some n =>
    if isInt64 n then some (int (Int64.ofInt n)) else floating d
  | none => floating d
where
  floating (d : Decimal) : Option Value :=
    let x := d.toBinary64
    if x.isFinite then some (float x) else none

mutual

def ofJson : EntityQuery.Json → Option Value
  | .void => none
  | .null => some null
  | .bool b => some (bool b)
  | .number d whole => ofNumber d (.number d whole)
  | .string s => some (text s)
  | .array items => (ofItems items).map list
  | .object members => (ofMembers [] members).map object

def ofItems : List EntityQuery.Json → Option (List Value)
  | [] => some []
  | j :: js => do
    let v ← ofJson j
    let vs ← ofItems js
    some (v :: vs)

/-- Of members that repeat the last counts. -/
def ofMembers (fields : Catalog Value) : List (String × EntityQuery.Json) → Option (Catalog Value)
  | [] => some fields
  | (k, j) :: rest => do
    let v ← ofJson j
    ofMembers (Catalog.insert k v fields) rest

end

def parse? (text : String) : Option Value := do ofJson (← EntityQuery.Json.parse? text)

end EntityQuery.Value
