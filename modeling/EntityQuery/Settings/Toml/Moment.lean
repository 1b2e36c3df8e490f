/-! TOML dates and times, and the one form in which they are written: a `T` between date
and time, no zeros at the end of the fraction of a second, and nine digits of it at most. -/
namespace EntityQuery.Toml

structure Date where
  year : Nat
  month : Nat
  day : Nat
deriving DecidableEq

/-- A time of day; `fraction` has the digits after the point of its second. -/
structure Clock where
  hour : Nat
  minute : Nat
  second : Nat
  fraction : List Char
deriving DecidableEq

/-- How far a clock is from that of Greenwich. -/
inductive Offset where
  | greenwich
  | behind (hours minutes : Nat)
  | ahead (hours minutes : Nat)
deriving DecidableEq

inductive Moment where
  | date (d : Date)
  | clock (c : Clock)
  | both (d : Date) (c : Clock) (offset : Option Offset)
deriving DecidableEq

def isLeapYear (year : Nat) : Bool := year % 4 == 0 && (year % 100 != 0 || year % 400 == 0)

def daysIn (year month : Nat) : Nat :=
  if month == 2 then if isLeapYear year then 29 else 28
  else if month == 4 || month == 6 || month == 9 || month == 11 then 30
  else 31

def number2? (a b : Char) : Option Nat :=
  if a.isDigit && b.isDigit then some (10 * (a.toNat - '0'.toNat) + (b.toNat - '0'.toNat))
  else none

def text2 (n : Nat) : List Char := [Nat.digitChar (n / 10 % 10), Nat.digitChar (n % 10)]

namespace Date

def isValid (d : Date) : Bool :=
  1 ≤ d.month && d.month ≤ 12 && 1 ≤ d.day && d.day ≤ daysIn d.year d.month

/-- A date in front of a text, and the text after it. -/
def read : List Char → Option (Date × List Char)
  | a :: b :: c :: d :: '-' :: e :: f :: '-' :: g :: h :: rest => do
    let date : Date :=
      ⟨100 * (← number2? a b) + (← number2? c d), ← number2? e f, ← number2? g h⟩
    if date.isValid then some (date, rest) else none
  | _ => none

def text (d : Date) : List Char :=
  text2 (d.year / 100) ++ text2 d.year ++ '-' :: text2 d.month ++ '-' :: text2 d.day

end Date

namespace Clock

/-- A minute may have 61 seconds. -/
def isValid (c : Clock) : Bool := c.hour ≤ 23 && c.minute ≤ 59 && c.second ≤ 60

/-- The digits after a point in front of a text, and the text after them. -/
def readFraction : List Char → Option (List Char × List Char)
  | '.' :: cs =>
    match cs.takeWhile Char.isDigit with
    | [] => none
    | digits => some (digits, cs.dropWhile Char.isDigit)
  | cs => some ([], cs)

/-- A time in front of a text, and the text after it. -/
def read : List Char → Option (Clock × List Char)
  | a :: b :: ':' :: c :: d :: ':' :: e :: f :: rest => do
    let (fraction, rest) ← readFraction rest
    let clock : Clock := ⟨← number2? a b, ← number2? c d, ← number2? e f, fraction⟩
    if clock.isValid then some (clock, rest) else none
  | _ => none

def fractionText (digits : List Char) : List Char :=
  match ((digits.take 9).reverse.dropWhile (· == '0')).reverse with
  | [] => []
  | shown => '.' :: shown

def text (c : Clock) : List Char :=
  text2 c.hour ++ ':' :: text2 c.minute ++ ':' :: text2 c.second ++ fractionText c.fraction

end Clock

namespace Offset

/-- The signed form with so many hours and minutes. -/
def ofSign? (sign : Char) (hours minutes : Nat) : Option Offset :=
  if hours ≤ 23 ∧ minutes ≤ 59 then
    if sign == '+' then some (ahead hours minutes)
    else if sign == '-' then some (behind hours minutes)
    else none
  else none

def ofText? : List Char → Option Offset
  | ['Z'] => some greenwich
  | ['z'] => some greenwich
  | [sign, a, b, ':', c, d] => do ofSign? sign (← number2? a b) (← number2? c d)
  | _ => none

def distanceText (hours minutes : Nat) : List Char := text2 hours ++ ':' :: text2 minutes

/-- No distance at all is ahead. -/
def text : Offset → List Char
  | greenwich => ['Z']
  | ahead hours minutes => '+' :: distanceText hours minutes
  | behind hours minutes =>
    (if hours + minutes == 0 then '+' else '-') :: distanceText hours minutes

end Offset

namespace Moment

/-- The offset that is all of a text; no text is no offset. -/
def readOffset : List Char → Option (Option Offset)
  | [] => some none
  | cs => (Offset.ofText? cs).map some

/-- A date, a time, or a date with a time and perhaps an offset. -/
def ofText? (cs : List Char) : Option Moment :=
  match Date.read cs with
  | some (d, []) => some (.date d)
  | some (d, mark :: rest) =>
    if mark == 'T' || mark == 't' || mark == ' ' then do
      let (c, rest) ← Clock.read rest
      some (.both d c (← readOffset rest))
    else none
  | none =>
    match Clock.read cs with
    | some (c, []) => some (.clock c)
    | _ => none

def text : Moment → List Char
  | date d => d.text
  | clock c => c.text
  | both d c none => d.text ++ 'T' :: c.text
  | both d c (some offset) => d.text ++ 'T' :: c.text ++ offset.text

end Moment

example : (Moment.ofText? "1979-05-27 07:32:00.1200-00:00".toList).map Moment.text
    = some "1979-05-27T07:32:00.12+00:00".toList := by decide +kernel

example : Moment.ofText? "1900-02-29".toList = none := by decide +kernel

example : Moment.ofText? "24:00:00".toList = none := by decide +kernel

end EntityQuery.Toml
