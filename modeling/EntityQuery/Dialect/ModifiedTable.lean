import EntityQuery.Error
import EntityQuery.Text.Letters

/-! The table that a statement modifies, read off its text: the word behind the first
occurrence of the keyword of the statement, whatever that is a part of. -/
namespace EntityQuery.StatementKind

/-- The keyword behind which the table stands. -/
def tableKeyword? : StatementKind → Option String
  | select => none
  | insert => some "into"
  | update => some "update"
  | delete => some "from"

/-- One character behind the keyword separates. The name ends at a space, and in an insert at
an opening parenthesis as well. -/
def tableAfter (kind : StatementKind) (afterKeyword : List Char) : List Char :=
  let word := (afterKeyword.drop 1).takeWhile (· != ' ')
  if kind = insert then word.takeWhile (· != '(') else word

def modifiedTable (kind : StatementKind) (sql : String) : Except QueryError String :=
  match kind.tableKeyword? with
  | none => .error (.statementUnsupported kind)
  | some keyword =>
    match Text.cutBefore keyword.toList sql.toList with
    | none => .error (.configuration (.keywordMissing keyword kind sql))
    | some (_, rest) => .ok (String.ofList (kind.tableAfter (rest.drop keyword.length)))

example : tableAfter insert " person(id) values (3)".toList = "person".toList := by decide

end EntityQuery.StatementKind
