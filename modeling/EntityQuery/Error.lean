import EntityQuery.StatementKind

/-! Why a query cannot be built, rendered or shaped. A fault is a cause; its wording
is `message`. Faults of one subject share a constructor of `QueryError`. -/
namespace EntityQuery

/-- Text that is no identifier or path. -/
inductive IdentifierFault where
  | empty
  | malformed (text : String)
  | emptyPath
  | emptySegment (path : String)
  | notRelation (path : String)
deriving DecidableEq

inductive PredicateFault where
  | unreadable (text : String)
  | unsupportedOperator (text : String)
  | nullRequired (operator : String)
  | nullForbidden
  | rootCondition (label : String)
  | conditionMissing (label : String)
deriving DecidableEq

inductive SchemaFault where
  | unreadable
  | idMissing (entity name : String)
  | entityTwice (entity : String)
  | entityUnknown (entity : String)
  | attributeUnknown (name entity : String)
  | basicInPath (name path : String)
  | basicJoined (name : String)
  | sizeOfAlias (label : String)
  | sizeOfSingle (label name : String)
deriving DecidableEq

inductive ConfigurationFault where
  | profileUnknown (name : String)
  | dialectUnknown (name : String)
  | offsetWithoutLimit
  | setUnsupported (operator dialect : String)
  | withUnsupported (dialect : String)
  | returningMissing (cte : String)
  | keywordMissing (keyword : String) (kind : StatementKind) (sql : String)
deriving DecidableEq

inductive QueryError where
  | functionUnknown (name : String)
  | parameterUnnamed
  | statementUnsupported (kind : StatementKind)
  | aliasTaken (label : String)
  | aliasUnknown (label : String)
  | aliasEndless (label : String)
  | nodeUnknown (node : Nat)
  | elementUnresolved (text : String)
  | identifier (fault : IdentifierFault)
  | predicate (fault : PredicateFault)
  | schema (fault : SchemaFault)
  | configuration (fault : ConfigurationFault)
deriving DecidableEq

namespace IdentifierFault

def message : IdentifierFault → String
  | empty => "empty"
  | malformed text => s!"`{text}`"
  | emptyPath => "empty path"
  | emptySegment path => s!"empty segment in `{path}`"
  | notRelation path => s!"`{path}` is not `alias.relation`"

end IdentifierFault

namespace PredicateFault

def message : PredicateFault → String
  | unreadable text => s!"`{text}`"
  | unsupportedOperator text => s!"unsupported operator `{text}`"
  | nullRequired operator => s!"operator `{operator}` requires NULL"
  | nullForbidden => "only IS / IS NOT allowed with NULL"
  | rootCondition label => s!"root `{label}` cannot carry an ON clause"
  | conditionMissing label => s!"entity join `{label}` needs an ON condition"

end PredicateFault

namespace SchemaFault

def message : SchemaFault → String
  | unreadable => "invalid metamodel json"
  | idMissing entity name =>
    s!"entity `{entity}` declares id attribute `{name}` which it does not have"
  | entityTwice entity => s!"entity `{entity}` is declared twice"
  | entityUnknown entity => s!"Entity `{entity}` not found"
  | attributeUnknown name entity => s!"`{name}` is not an attribute of `{entity}`"
  | basicInPath name path => s!"cannot dereference basic attribute `{name}` in `{path}`"
  | basicJoined name => s!"cannot join basic attribute `{name}`"
  | sizeOfAlias label => s!"SIZE needs a collection attribute, got alias `{label}`"
  | sizeOfSingle label name => s!"SIZE argument `{label}.{name}` is not a collection"

end SchemaFault

namespace ConfigurationFault

def message : ConfigurationFault → String
  | profileUnknown name => s!"unknown persistence provider `{name}`"
  | dialectUnknown name => s!"unknown dialect `{name}`"
  | offsetWithoutLimit => "first result needs max results to render an offset"
  | setUnsupported operator dialect => s!"{operator} is not supported by the {dialect} dialect"
  | withUnsupported dialect => s!"the {dialect} dialect does not support WITH clauses"
  | returningMissing cte =>
    s!"returning columns are required to expose the new state of `{cte}`"
  | keywordMissing keyword kind sql =>
    s!"no `{keyword}` keyword in {kind.keyword} statement `{sql}`"

end ConfigurationFault

namespace QueryError

def message : QueryError → String
  | functionUnknown name => s!"Unknown function [{name}] is used!"
  | parameterUnnamed => "Unsatisfied parameter: <unnamed>"
  | statementUnsupported kind => "Unsupported statement type: " ++ kind.keyword
  | aliasTaken label => s!"Alias `{label}` is already registered in this query scope"
  | aliasUnknown label => s!"Unknown alias `{label}`"
  | aliasEndless label => s!"Select alias `{label}` refers to itself"
  | nodeUnknown node => s!"Join node #{node} does not exist in the join tree"
  | elementUnresolved text =>
    s!"Array expression `{text}` must be resolved to a join before generation"
  | identifier fault => "Invalid identifier: " ++ fault.message
  | predicate fault => "Invalid predicate: " ++ fault.message
  | schema fault => "Metamodel error: " ++ fault.message
  | configuration fault => "Configuration error: " ++ fault.message

end QueryError

end EntityQuery
