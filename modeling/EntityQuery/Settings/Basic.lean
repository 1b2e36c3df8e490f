import EntityQuery.Profile
import EntityQuery.Settings.Toml

/-! The settings of an application: defaults, over which a file goes, over which the
environment goes. -/
namespace EntityQuery

/-- A provider by name, and what is changed in its profile. An empty value function means
that there is none. -/
structure ProviderSettings where
  provider : String
  dynamicCalls : Option Bool
  valueFunction : Option String
  listBrackets : Option Bool
deriving DecidableEq

namespace ProviderSettings

def adjust (s : ProviderSettings) (p : Profile) : Profile :=
  { p with
    dynamicCalls := s.dynamicCalls.getD p.dynamicCalls
    listBrackets := s.listBrackets.getD p.listBrackets
    valueFunction := match s.valueFunction with
      | none => p.valueFunction
      | some f => if Text.trimmed f = "" then none else some (Text.trimmed f) }

def profile (s : ProviderSettings) : Except QueryError Profile := do
  let provider ← Provider.ofName s.provider
  .ok (s.adjust (Profile.preset provider))

end ProviderSettings

structure Settings where
  provider : ProviderSettings
  dialect : String
  resolveAliases : Bool
  aliasMark : Option String
  functions : List String
  logLevel : String
  logFormat : String
deriving DecidableEq

namespace Settings

def default : Settings where
  provider := ⟨"hibernate", none, none, none⟩
  dialect := "default"
  resolveAliases := true
  aliasMark := none
  functions := []
  logLevel := "info"
  logFormat := "json"

def optional {α : Type} (write : α → Setting) : Option α → Setting
  | none => .absent
  | some a => write a

def tableOf (entries : List (String × Setting)) : Setting := .table (Catalog.ofList entries)

/-- A list without items has no entry. -/
def functionEntries (functions : List String) : List (String × Setting) :=
  if functions.isEmpty then [] else [("registered_functions", .list (functions.map .text))]

def toDocument (s : Settings) : Setting :=
  tableOf
    [("provider", tableOf
        [("profile", .text s.provider.provider),
          ("supports_dynamic_function", optional .flag s.provider.dynamicCalls),
          ("collection_value_function", optional .text s.provider.valueFunction),
          ("list_parameter_brackets", optional .flag s.provider.listBrackets)]),
      ("dialect", tableOf [("kind", .text s.dialect)]),
      ("query", tableOf
        ([("resolve_select_aliases", .flag s.resolveAliases),
          ("alias_prefix", optional .text s.aliasMark)] ++ functionEntries s.functions)),
      ("observability", tableOf
        [("logging", tableOf [("level", .text s.logLevel), ("format", .text s.logFormat)])])]

abbrev Fields := List (String × Setting)

def required {α : Type} (read : Setting → Option α) (fields : Fields) (name : String) :
    Option α := (fields.lookup name).bind read

/-- A field that may be missing or absent. -/
def possible {α : Type} (read : Setting → Option α) (fields : Fields) (name : String) :
    Option (Option α) :=
  match fields.lookup name with
  | none => some none
  | some s => s.optionally read

def providerOf? (s : Setting) : Option ProviderSettings := do
  let fields ← s.fields? ["profile", "supports_dynamic_function", "collection_value_function",
    "list_parameter_brackets"]
  some
    { provider := ← required Setting.asText? fields "profile"
      dynamicCalls := ← possible Setting.asFlag? fields "supports_dynamic_function"
      valueFunction := ← possible Setting.asText? fields "collection_value_function"
      listBrackets := ← possible Setting.asFlag? fields "list_parameter_brackets" }

/-- Entries that have no meaning are passed over. -/
def ofDocument (s : Setting) : Option Settings := do
  let root := s.entries
  let dialect ← required (Setting.fields? ["kind"]) root "dialect"
  let query ← required
    (Setting.fields? ["resolve_select_aliases", "alias_prefix", "registered_functions"]) root
    "query"
  let observability ← required (Setting.fields? ["logging"]) root "observability"
  let logging ← required (Setting.fields? ["level", "format"]) observability "logging"
  some
    { provider := ← required providerOf? root "provider"
      dialect := ← required Setting.asText? dialect "kind"
      resolveAliases := ← required Setting.asFlag? query "resolve_select_aliases"
      aliasMark := ← possible Setting.asText? query "alias_prefix"
      functions :=
        ← match query.lookup "registered_functions" with
          | none => some []
          | some s => s.asTexts?
      logLevel := ← required Setting.asText? logging "level"
      logFormat := ← required Setting.asText? logging "format" }

/-- Names of environment variables begin with this, in any letter case. -/
def variableMark : List Char := "prism__".toList

/-- Two underscores in a row count as a dot. -/
def dotted : List Char → List Char
  | '_' :: '_' :: cs => '.' :: dotted cs
  | c :: cs => c :: dotted cs
  | [] => []

/-- The key that an environment variable sets. -/
def variableKey? (name : String) : Option String :=
  let cs := (Text.foldName name).toList
  if variableMark.isPrefixOf cs then some (String.ofList (dotted (cs.drop variableMark.length)))
  else none

def putVariable (s : Setting) (v : String × String) : Option Setting :=
  match variableKey? v.1 with
  | some key => s.putKey key (.text v.2)
  | none => some s

/-- The settings from the text of a file, if there is one, and from the environment. `none`
says that the file cannot be read, that a key counts past the front of a list, or that a
setting has not the form it needs. -/
def load (file : Option String) (environment : List (String × String)) : Option Settings := do
  let written ← match file with
    | some text => Toml.parse? text
    | none => some []
  let merged ← written.foldlM (fun s (key, value) => s.putKey key value) default.toDocument
  ofDocument (← environment.foldlM putVariable merged)

end Settings

end EntityQuery
