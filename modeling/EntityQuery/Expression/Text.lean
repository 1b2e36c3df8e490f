import EntityQuery.Expression.Basic
import EntityQuery.Text.Identifier
import EntityQuery.Value.Text

/-! The plain text of expressions, in which no path is replaced by what it is bound to.
Aliases of select items are looked up by this text. -/
namespace EntityQuery

namespace Path

/-- The free path that a text writes. -/
def ofText (s : String) : Path := ⟨Text.segments s, none, none, false, false⟩

def bound (s : String) (node : Nat) (field : Option String) : Path :=
  ⟨Text.segments s, some node, field, false, false⟩

def text (p : Path) : String := String.intercalate "." p.segments

end Path

namespace Literal

def plain : Literal → String
  | text s => Text.quoted s
  | int n => Value.wholeText n
  | decimal s => s
  | bool b => Value.truthLiteral b
  | null => "NULL"

end Literal

/-- The name of a parameter after a colon. -/
def parameterText : Option String → String
  | some name => ":" ++ name
  | none => "?"

namespace Expression

def ofPathText (s : String) : Expression := path (Path.ofText s)

/-- The joins of a subquery. -/
def joinsText (joins : List (String × String)) : String :=
  String.join (joins.map fun (relation, label) => s!" LEFT JOIN {relation} {label}")

/-- Conditions behind WHERE, with AND between them. -/
def whereText : List String → String
  | [] => ""
  | conditions => " WHERE " ++ String.intercalate " AND " conditions

mutual

def plain : Expression → String
  | path p => p.text
  | call f as => f ++ "(" ++ String.intercalate "," (plainList as) ++ ")"
  | parameter name _ => parameterText name
  | element p i => p.text ++ "[" ++ plain i ++ "]"
  | literal l => l.plain
  | subquery s e a js cs =>
    s!"(SELECT {plain s} FROM {e} {a}" ++ joinsText js ++ whereText (plainEqualities cs) ++ ")"

def plainList : List Expression → List String
  | [] => []
  | e :: es => plain e :: plainList es

def plainEqualities : List (Expression × Expression) → List String
  | [] => []
  | (a, b) :: cs => (plain a ++ " = " ++ plain b) :: plainEqualities cs

end

/-- The function that a dynamic call names: a text literal, or the plain text of its first
argument without quotes around it. -/
def dynamicName? : List Expression → Option String
  | [] => none
  | literal (.text s) :: _ => some s
  | e :: _ =>
    let s := plain e
    some (((Text.betweenQuotes? s.toList).map String.ofList).getD s)

end Expression

end EntityQuery
