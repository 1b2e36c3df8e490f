import EntityQuery.Binary64.Rounding

/-! Decimal text of binary64 numbers: an optional sign, then digits with at most one point
and an optional exponent, or one of the words for infinity and for what is not a number. -/
namespace EntityQuery

/-- A written decimal: `coefficient * 10 ^ exponent`. -/
structure Decimal where
  negative : Bool
  coefficient : Nat
  exponent : Int
deriving DecidableEq

namespace Decimal

def digitValue (c : Char) : Nat := c.toNat - '0'.toNat

/-- The number that the digits `cs` write after the number `n`. -/
def readDigits (n : Nat) (cs : List Char) : Nat :=
  cs.foldl (fun n c => 10 * n + digitValue c) n

/-- The value of an exponent mark with its digits, or zero where there is none. -/
def readExponent : List Char → Option Int
  | [] => some 0
  | e :: rest =>
    if e == 'e' || e == 'E' then
      let (negative, digits) := match rest with
        | '+' :: ds => (false, ds)
        | '-' :: ds => (true, ds)
        | ds => (false, ds)
      if digits.isEmpty || !digits.all Char.isDigit then none
      else
        let n : Int := readDigits 0 digits
        some (if negative then -n else n)
    else none

/-- Digits, an optional point with digits on either side, an optional exponent. -/
def readUnsigned (negative : Bool) (cs : List Char) : Option Decimal :=
  let whole := cs.takeWhile Char.isDigit
  let rest := cs.dropWhile Char.isDigit
  let (fraction, tail) := match rest with
    | '.' :: ds => (ds.takeWhile Char.isDigit, ds.dropWhile Char.isDigit)
    | ds => ([], ds)
  if whole.isEmpty && fraction.isEmpty then none
  else (readExponent tail).map fun e =>
    ⟨negative, readDigits (readDigits 0 whole) fraction, e - fraction.length⟩

def toBinary64 (d : Decimal) : Binary64 :=
  Binary64.ofDecimal d.negative d.coefficient d.exponent

end Decimal

namespace Binary64

def readSigned (negative : Bool) (cs : List Char) : Option Binary64 :=
  let word := cs.map Char.toLower
  if word = "inf".toList ∨ word = "infinity".toList then some (infinity negative)
  else if word = "nan".toList then some (notANumber negative)
  else (Decimal.readUnsigned negative cs).map Decimal.toBinary64

/-- The number nearest to the decimal that `s` writes. -/
def ofText? (s : String) : Option Binary64 :=
  match s.toList with
  | '+' :: cs => readSigned false cs
  | '-' :: cs => readSigned true cs
  | cs => readSigned false cs

end Binary64

end EntityQuery
