import EntityQuery.Value.Basic
import EntityQuery.Binary64.Shortest
import EntityQuery.Text.Escaped
import EntityQuery.Text.Quoted

/-! Two written forms of values: plain text, in which a text stands for itself, and
literals of the query language, in which it stands between quotes. -/
namespace EntityQuery.Value

def truthText (b : Bool) : String := if b then "true" else "false"

def truthLiteral (b : Bool) : String := if b then "TRUE" else "FALSE"

def wholeText (n : Int64) : String := toString n.toInt

mutual

def plain : Value → String
  | null => "null"
  | bool b => truthText b
  | int n => wholeText n
  | float x => x.text
  | text s => s
  | list items => "[" ++ String.intercalate ", " (plainItems items) ++ "]"
  | object fields => "\x7b" ++ String.intercalate ", " (plainFields fields) ++ "\x7d"

def plainItems : List Value → List String
  | [] => []
  | v :: vs => plain v :: plainItems vs

def plainFields : List (String × Value) → List String
  | [] => []
  | (k, v) :: rest => (Text.escapedKey k ++ ": " ++ plain v) :: plainFields rest

end

mutual

/-- An object is written as the literal of its plain text. -/
def literal : Value → String
  | null => "NULL"
  | bool b => truthLiteral b
  | int n => wholeText n
  | float x => x.text
  | text s => Text.quoted s
  | list items => "(" ++ String.intercalate "," (literalItems items) ++ ")"
  | object fields => Text.quoted (plain (object fields))

def literalItems : List Value → List String
  | [] => []
  | v :: vs => literal v :: literalItems vs

end

example : literal (list [null, bool true, text "x'y"]) = "(NULL,TRUE,'x''y')" := by decide +kernel

end EntityQuery.Value
