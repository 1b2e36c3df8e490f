import EntityQuery.Error
import EntityQuery.Expression.Text
import EntityQuery.Text.Blank

/-! Comparisons of two expressions, the conditions of WHERE and ON. -/
namespace EntityQuery

inductive Comparison where
  | equal | notEqual | lessOrGreater | less | atMost | greater | atLeast | is | isNot
deriving DecidableEq

namespace Comparison

def text : Comparison → String
  | equal => "="
  | notEqual => "!="
  | lessOrGreater => "<>"
  | less => "<"
  | atMost => "<="
  | greater => ">"
  | atLeast => ">="
  | is => "IS"
  | isNot => "IS NOT"

/-- Only these compare with NULL, and they compare with nothing else. -/
def withNull : Comparison → Bool
  | is | isNot => true
  | _ => false

/-- The comparison that an operator in capitals, with single blanks, writes. -/
def ofOperator? : String → Option Comparison
  | "=" => some equal
  | "!=" => some notEqual
  | "<>" => some lessOrGreater
  | "<" => some less
  | "<=" => some atMost
  | ">" => some greater
  | ">=" => some atLeast
  | "IS" => some is
  | "IS NOT" => some isNot
  | _ => none

/-- Letter case and the length of blanks do not matter. -/
def ofText (s : String) : Except QueryError Comparison :=
  let words := (Text.words s.toList).map String.ofList
  match ofOperator? (Text.upper (String.intercalate " " words)) with
  | some c => .ok c
  | none => .error (.predicate (.unsupportedOperator s))

end Comparison

structure Predicate where
  left : Expression
  comparison : Comparison
  right : Expression

namespace Predicate

def equality (left right : Expression) : Predicate := ⟨left, .equal, right⟩

/-- NULL stands on the right of IS and IS NOT, and only there. -/
def compare (left : Expression) (c : Comparison) (right : Expression) :
    Except QueryError Predicate :=
  match c.withNull, right.isNullLiteral with
  | true, false => .error (.predicate (.nullRequired c.text))
  | false, true => .error (.predicate .nullForbidden)
  | _, _ => .ok ⟨left, c, right⟩

def ofOperator (left : Expression) (operator : String) (right : Expression) :
    Except QueryError Predicate := do
  compare left (← Comparison.ofText operator) right

/-- Changes both sides, the left one first. -/
def mapSides (p : Predicate) (f : Expression → Except QueryError Expression) :
    Except QueryError Predicate := do
  let left ← f p.left
  let right ← f p.right
  .ok { p with left, right }

def text (p : Predicate) : String := s!"{p.left.plain} {p.comparison.text} {p.right.plain}"

end Predicate

end EntityQuery
