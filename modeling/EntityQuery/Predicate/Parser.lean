import EntityQuery.Binary64.Decimal
import EntityQuery.Predicate.Basic

/-! Predicates from text. The first operator divides the text, and `is` and `is not` are
operators where blanks stand around them. What quotes enclose is divided all the same. -/
namespace EntityQuery

/-- Blanks, at least one, and what follows them. -/
def blanksAndRest? (cs : List Char) : Option (List Char × List Char) :=
  match cs.takeWhile Text.isBlank with
  | [] => none
  | blanks => some (blanks, cs.dropWhile Text.isBlank)

/-- Small and capital letters, and the long s, which has the capital S. -/
def isLetterS (c : Char) : Bool := Text.sameLetter c 's' || c == '\u017f'

/-- The word `not` with blanks behind it. -/
def notAndRest? : List Char → Option (List Char × List Char)
  | n :: o :: t :: cs =>
    if Text.sameLetter n 'n' && Text.sameLetter o 'o' && Text.sameLetter t 't' then
      (blanksAndRest? cs).map fun (blanks, rest) => (n :: o :: t :: blanks, rest)
    else none
  | _ => none

/-- The word `is` with blanks behind it, and `not` where that follows. -/
def isAndRest? : List Char → Option (List Char × List Char)
  | i :: s :: cs =>
    if Text.sameLetter i 'i' && isLetterS s then
      (blanksAndRest? cs).map fun (blanks, rest) =>
        match notAndRest? rest with
        | some (more, rest) => (i :: s :: blanks ++ more, rest)
        | none => (i :: s :: blanks, rest)
    else none
  | _ => none

/-- The operator that `cs` begins with, and what follows it. -/
def operatorAndRest? : List Char → Option (List Char × List Char)
  | '<' :: '=' :: cs => some (['<', '='], cs)
  | '>' :: '=' :: cs => some (['>', '='], cs)
  | '<' :: '>' :: cs => some (['<', '>'], cs)
  | '!' :: '=' :: cs => some (['!', '='], cs)
  | '=' :: cs => some (['='], cs)
  | '<' :: cs => some (['<'], cs)
  | '>' :: cs => some (['>'], cs)
  | cs => do
    let (_, rest) ← blanksAndRest? cs
    isAndRest? rest

/-- The text before the first operator, the operator, and the text behind it. -/
def aroundOperator? : List Char → Option (List Char × List Char × List Char)
  | [] => none
  | c :: cs =>
    match operatorAndRest? (c :: cs) with
    | some (operator, right) => some ([], operator, right)
    | none => (aroundOperator? cs).map fun (left, parts) => (c :: left, parts)

/-- An optional sign and digits; the number has 64 bits. -/
def wholeNumber? (s : String) : Option Int64 :=
  let (sign, digits) : Int × List Char := match s.toList with
    | '+' :: ds => (1, ds)
    | '-' :: ds => (-1, ds)
    | ds => (1, ds)
  if digits.isEmpty || !digits.all Char.isDigit then none
  else
    let n : Int := sign * Decimal.readDigits 0 digits
    if Int64.minValue.toInt ≤ n ∧ n ≤ Int64.maxValue.toInt then some (Int64.ofInt n) else none

/-- A whole number if it fits, otherwise a decimal as it is written. -/
def numberLiteral? (s : String) : Option Literal :=
  match s.toList with
  | c :: _ =>
    if c.isDigit || c == '+' || c == '-' then
      match wholeNumber? s with
      | some n => some (.int n)
      | none => if (Binary64.ofText? s).isSome then some (.decimal s) else none
    else none
  | [] => none

def pathOperand (s : String) : Except QueryError Expression := do
  Text.checkPath s
  .ok (.ofPathText s)

/-- A side of a comparison: a keyword, a parameter after a colon, text between quotes, a
number or a path. -/
def operand (s : String) : Except QueryError Expression :=
  if Text.sameLetters s "NULL" then .ok (.literal .null)
  else if Text.sameLetters s "TRUE" then .ok (.literal (.bool true))
  else if Text.sameLetters s "FALSE" then .ok (.literal (.bool false))
  else match s.toList with
  | ':' :: name => do
    Text.checkPath (String.ofList name)
    .ok (.parameter (some (String.ofList name)) none)
  | cs =>
    match Text.betweenQuotes? cs with
    | some inner => .ok (.literal (.text (String.ofList (Text.undoubleQuotes inner))))
    | none =>
      match numberLiteral? s with
      | some l => .ok (.literal l)
      | none => pathOperand s

namespace Predicate

def parse (s : String) : Except QueryError Predicate :=
  match aroundOperator? (Text.trim s.toList) with
  | none => .error (.predicate (.unreadable s))
  | some (left, operator, right) =>
    let left := String.ofList (Text.trim left)
    let right := String.ofList (Text.trim right)
    if left = "" ∨ right = "" then .error (.predicate (.unreadable s))
    else do
      let l ← operand left
      let r ← operand right
      ofOperator l (String.ofList (Text.trim operator)) r

end Predicate

end EntityQuery
