import EntityQuery.Error
import EntityQuery.Value.Text

/-! Why a view cannot be declared, queried, loaded or written back. -/
namespace EntityQuery

/-- A step of a path that a value does not allow. -/
inductive AccessFault where
  | read (segment : String) (kind : ValueKind)
  | write (value : Value) (segment : String) (kind : ValueKind)

/-- Faults of declarations and of what is built from them. -/
inductive ViewFault where
  | unreadable
  | correlatedTwice (label entity : String)
  | providerTwice (name : String)
  | providerUnknown (name view : String) (item : String)
  | attributeTwice (name view : String)
  | idTwice (view : String)
  | collectionUpdatable (name view : String)
  | correlatedUpdatable (name view : String)
  | mapperMissing (name provider : String)
  | viewTwice (name : String)
  | viewUnknown (name : String)
  | idNeeded (view : String)
  | idMissing (view : String)
  | idWithoutPath (name view : String)
  | nothingUpdatable (view : String)
  | notUpdatable (view : String)
  | otherView (updater view : String)
  | valueCount (view : String) (attributes values : Nat)
deriving DecidableEq

inductive ViewError where
  | transactionInactive
  | rowCount (expected actual : Nat)
  | correlationLimit (provider : String)
  | access (fault : AccessFault)
  | declaration (fault : ViewFault)
  | attributeUnknown (view name : String)
  | attributeReadOnly (view name : String)
  | collaborator (message : String)
  | query (e : QueryError)

namespace AccessFault

def message : AccessFault → String
  | read .. => "Couldn't access entity attribute value!"
  | write v .. => "Couldn't map value [" ++ v.plain ++ "] to entity attribute!"

def cause : AccessFault → String
  | read segment kind => s!"`{segment}` cannot be read from a {kind.word} value"
  | write _ segment kind => s!"`{segment}` cannot be written on a {kind.word} value"

end AccessFault

namespace ViewFault

def message : ViewFault → String
  | unreadable => "invalid view descriptor json"
  | correlatedTwice label entity =>
    s!"correlation alias `{label}` already correlates `{entity}`"
  | providerTwice name => s!"correlation provider `{name}` is registered twice"
  | providerUnknown name view item =>
    s!"correlation provider `{name}` used by `{view}.{item}` is not registered"
  | attributeTwice name view => s!"attribute `{name}` is declared twice on `{view}`"
  | idTwice view => s!"view type `{view}` declares more than one id attribute"
  | collectionUpdatable name view =>
    s!"collection attribute `{name}` on `{view}` cannot be updatable"
  | correlatedUpdatable name view =>
    s!"correlated attribute `{name}` on `{view}` cannot be updatable"
  | mapperMissing name provider => s!"attribute `{name}` has no mapper for provider `{provider}`"
  | viewTwice name => s!"view type `{name}` is declared twice"
  | viewUnknown name => s!"View type `{name}` not found"
  | idNeeded view => s!"updatable view type `{view}` needs an id attribute"
  | idMissing view => s!"view type `{view}` has no id attribute"
  | idWithoutPath name view => s!"id attribute `{name}` of `{view}` must map an entity path"
  | nothingUpdatable view => s!"view type `{view}` has no updatable attributes"
  | notUpdatable view => s!"view type `{view}` is not updatable"
  | otherView updater view => s!"updater for `{updater}` cannot update a `{view}` instance"
  | valueCount view attributes values =>
    s!"view type `{view}` has {attributes} attributes but {values} values were given"

end ViewFault

namespace ViewError

def message : ViewError → String
  | transactionInactive => "Transaction is not active!"
  | rowCount expected actual =>
    s!"Update did not work! Expected to update {expected} row but was: {actual}"
  | correlationLimit provider =>
    s!"Correlation provider `{provider}` " ++
      "wrongly uses first result or max results on the query builder"
  | access fault => fault.message
  | declaration fault => "View metamodel error: " ++ fault.message
  | attributeUnknown view name => s!"Unknown attribute `{name}` on view `{view}`"
  | attributeReadOnly view name => s!"Attribute `{name}` on view `{view}` is not updatable"
  | collaborator message => "Transaction collaborator failed: " ++ message
  | query e => e.message

/-- A query error as one of a view. -/
def ofQuery {α : Type} : Except QueryError α → Except ViewError α
  | .ok a => .ok a
  | .error e => .error (.query e)

end ViewError

end EntityQuery
