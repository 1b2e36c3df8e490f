import EntityQuery.Query.Statement
import EntityQuery.Settings.Basic
import EntityQuery.View.Updater

/-! An application: what is built once from the settings and the schema and then shared by
all queries and updates. -/
namespace EntityQuery

inductive StartStage where
  | provider | dialect | views | updaters
deriving DecidableEq

/-- The stage at which a start fails, and why. -/
structure StartError where
  stage : StartStage
  cause : ViewError

namespace StartStage

def text : StartStage → String
  | provider => "Invalid provider configuration"
  | dialect => "Invalid dialect configuration"
  | views => "Failed to build the entity-view metamodel"
  | updaters => "Failed to build entity-view updaters"

/-- Gives the errors of a stage its name. -/
def run {α : Type} (stage : StartStage) : Except ViewError α → Except StartError α
  | .ok a => .ok a
  | .error e => .error ⟨stage, e⟩

end StartStage

namespace StartError

def message (e : StartError) : String := e.stage.text ++ ": " ++ e.cause.message

end StartError

structure Application where
  basis : QueryBasis
  dialect : Dialect
  views : ViewSchema
  updaters : Updaters

namespace Application

def profile (s : ProviderSettings) : Except StartError Profile :=
  StartStage.provider.run (ViewError.ofQuery s.profile)

def start (s : Settings) (schema : Schema) (views : List ViewDescriptor)
    (correlations : CorrelationRegistry) : Except StartError Application := do
  let profile ← profile s.provider
  let dialect ← StartStage.dialect.run (ViewError.ofQuery (Dialect.ofName s.dialect))
  let views ← StartStage.views.run (ViewSchema.build schema correlations views)
  let updaters ← StartStage.updaters.run (Updaters.build views)
  .ok
    { dialect, views, updaters
      basis :=
        { schema, profile
          functions := .ofNames s.functions
          resolveAliases := s.resolveAliases
          aliasMark := s.aliasMark } }

def query (a : Application) (entity label : String) : Except QueryError Query :=
  Query.start a.basis entity label

def queryOfView (a : Application) (view label : String) : Except ViewError Query := do
  (← a.views.view view).query a.basis label

def statement (a : Application) (q : Query) (tables : List CommonTable) :
    Except QueryError Statement :=
  q.statement a.dialect tables

def update (a : Application) (t : Transaction) (i : ViewInstance) : UpdateRun := a.updaters.run t i

end Application

end EntityQuery
