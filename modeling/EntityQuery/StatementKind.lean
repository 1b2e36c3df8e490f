/-! The four kinds of SQL statement. -/
namespace EntityQuery

inductive StatementKind where
  | select | insert | update | delete
deriving DecidableEq, Inhabited

namespace StatementKind

def keyword : StatementKind → String
  | select => "SELECT"
  | insert => "INSERT"
  | update => "UPDATE"
  | delete => "DELETE"

end StatementKind

end EntityQuery
