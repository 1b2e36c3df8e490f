import EntityQuery.Json.Basic

/-! Writing JSON text, without blanks. Quotes, backslashes and control characters are
escaped, and all other characters stand for themselves. What has no meaning is a null. -/
namespace EntityQuery.Json

def ofInt (n : Int) : Json := number ⟨n < 0, n.natAbs, 0⟩ true

/-- The last two of the four digits of an escaped control character. -/
def controlDigits (n : Nat) : List Char :=
  if n < 16 then '0' :: Nat.toDigits 16 n else Nat.toDigits 16 n

def writtenChar (c : Char) : List Char :=
  if c = '"' ∨ c = '\\' then ['\\', c]
  else if c.toNat < 0x20 then ['\\', 'u', '0', '0'] ++ controlDigits c.toNat
  else [c]

def writtenString (s : String) : String :=
  "\"" ++ String.ofList (s.toList.flatMap writtenChar) ++ "\""

/-- The coefficient, with an exponent where the number needs one. -/
def writtenNumber (d : Decimal) (whole : Bool) : String :=
  let digits := (if d.negative then "-" else "") ++ toString d.coefficient
  if whole && d.exponent == 0 then digits else digits ++ "e" ++ toString d.exponent

mutual

def text : Json → String
  | void => "null"
  | null => "null"
  | bool b => if b then "true" else "false"
  | number d whole => writtenNumber d whole
  | string s => writtenString s
  | array items => "[" ++ String.intercalate "," (itemTexts items) ++ "]"
  | object members => "\x7b" ++ String.intercalate "," (memberTexts members) ++ "\x7d"

def itemTexts : List Json → List String
  | [] => []
  | j :: js => text j :: itemTexts js

def memberTexts : List (String × Json) → List String
  | [] => []
  | (name, j) :: rest => (writtenString name ++ ":" ++ text j) :: memberTexts rest

end

example : text (array [null, string "a\"\n", ofInt (-7)]) = "[null,\"a\\\"\\u000a\",-7]" := by
  decide +kernel

end EntityQuery.Json
