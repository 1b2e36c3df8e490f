import EntityQuery.Binary64.Decimal
import EntityQuery.Text.Hexadecimal

/-! TOML numbers. An underscore may stand between two digits. A decimal has no zero in front
of its other digits; an integer may be written in base 16, 8 or 2. -/
namespace EntityQuery.Toml

/-- The digits without the underscores between them. -/
def ungrouped? (isDigit : Char → Bool) : List Char → Option (List Char)
  | [] => none
  | [c] => if isDigit c then some [c] else none
  | c :: '_' :: rest => if isDigit c then (ungrouped? isDigit rest).map (c :: ·) else none
  | c :: rest => if isDigit c then (ungrouped? isDigit rest).map (c :: ·) else none

def ofGroups? (base : Nat) (cs : List Char) : Option Int := do
  some (← Text.ofDigits? base (← ungrouped? (Text.isDigitOf base) cs))

/-- The digits of a decimal integer without its sign. -/
def wholeDigits? (cs : List Char) : Option (List Char) :=
  if cs.head? = some '0' ∧ cs.length ≠ 1 then none else ungrouped? Char.isDigit cs

def wholeNumber? (cs : List Char) : Option Int :=
  (wholeDigits? cs).map fun digits => (Decimal.readDigits 0 digits : Int)

/-- An integer of 64 bits. -/
def integer? (token : List Char) : Option Int := do
  let n ← match token with
    | '0' :: 'x' :: cs => ofGroups? 16 cs
    | '0' :: 'o' :: cs => ofGroups? 8 cs
    | '0' :: 'b' :: cs => ofGroups? 2 cs
    | '+' :: cs => wholeNumber? cs
    | '-' :: cs => (wholeNumber? cs).map (- ·)
    | cs => wholeNumber? cs
  if Int64.minValue.toInt ≤ n ∧ n ≤ Int64.maxValue.toInt then some n else none

def isGroupChar (c : Char) : Bool := c.isDigit || c == '_'

/-- The value of an exponent: a mark, perhaps a sign, and digits. -/
def exponent? : List Char → Option Int
  | mark :: cs =>
    if mark == 'e' || mark == 'E' then
      match cs with
      | '+' :: cs => digits cs
      | '-' :: cs => (digits cs).map (- ·)
      | cs => digits cs
    else none
  | [] => none
where
  digits (cs : List Char) : Option Int :=
    (ungrouped? Char.isDigit cs).map fun ds => (Decimal.readDigits 0 ds : Int)

/-- A decimal with a fraction or an exponent or both. -/
def decimal? (negative : Bool) (cs : List Char) : Option Decimal := do
  let whole ← wholeDigits? (cs.takeWhile isGroupChar)
  match cs.dropWhile isGroupChar with
  | '.' :: rest =>
    let fraction ← ungrouped? Char.isDigit (rest.takeWhile isGroupChar)
    let exponent ← match rest.dropWhile isGroupChar with
      | [] => some 0
      | tail => exponent? tail
    some ⟨negative, Decimal.readDigits (Decimal.readDigits 0 whole) fraction,
      exponent - fraction.length⟩
  | tail => some ⟨negative, Decimal.readDigits 0 whole, ← exponent? tail⟩

def unsignedFloat? (negative : Bool) (cs : List Char) : Option Binary64 :=
  if cs = "inf".toList then some (Binary64.infinity negative)
  else if cs = "nan".toList then some (Binary64.notANumber negative)
  else do
    let x := (← decimal? negative cs).toBinary64
    if x = Binary64.infinity false then none else some x

/-- A decimal too large for a number is refused where it is positive. -/
def float? : List Char → Option Binary64
  | '+' :: cs => unsignedFloat? false cs
  | '-' :: cs => unsignedFloat? true cs
  | cs => unsignedFloat? false cs

example : integer? "-1_000".toList = some (-1000) := by decide +kernel

example : [integer? "007".toList, integer? "1__0".toList] = [none, none] := by decide +kernel

end EntityQuery.Toml
