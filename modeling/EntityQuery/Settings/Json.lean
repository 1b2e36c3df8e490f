import EntityQuery.Json.Basic
import EntityQuery.Settings.Basic

/-! Settings as JSON: an object for each section, and null for what is absent. -/
namespace EntityQuery

namespace ProviderSettings

def toJson (s : ProviderSettings) : Json :=
  .object
    [("profile", .string s.provider),
      ("supports_dynamic_function", (s.dynamicCalls.map Json.bool).getD .null),
      ("collection_value_function", (s.valueFunction.map Json.string).getD .null),
      ("list_parameter_brackets", (s.listBrackets.map Json.bool).getD .null)]

end ProviderSettings

namespace Settings

def toJson (s : Settings) : Json :=
  .object
    [("provider", s.provider.toJson),
      ("dialect", .object [("kind", .string s.dialect)]),
      ("query", .object
        [("resolve_select_aliases", .bool s.resolveAliases),
          ("alias_prefix", (s.aliasMark.map Json.string).getD .null),
          ("registered_functions", .array (s.functions.map .string))]),
      ("observability", .object
        [("logging", .object [("level", .string s.logLevel), ("format", .string s.logFormat)])])]

end Settings

end EntityQuery
