import EntityQuery.AliasScope
import EntityQuery.FunctionNames
import EntityQuery.JoinForest
import EntityQuery.Profile

/-! Rendering of expressions in the scope of a query. A bound path is written with the alias
of its node, a free one as what its select alias stands for. -/
namespace EntityQuery

/-- `aliasMark` is put before every join alias, and `resolveAliases` says whether select
aliases are replaced. -/
structure Renderer where
  scope : AliasScope
  forest : JoinForest
  profile : Profile
  functions : FunctionNames
  parameters : Catalog Value
  resolveAliases : Bool
  aliasMark : Option String

namespace Renderer

/-- Is the value of the node wrapped by the collection value function? A path that is
wrapped already needs no second one unless it reads a field. -/
def valueFunction? (r : Renderer) (p : Path) (n : ForestNode) : Option String :=
  if n.isIndexed && !p.keyed && (p.field.isSome || !p.wrapped) then r.profile.valueFunction
  else none

def boundPath (r : Renderer) (p : Path) (n : ForestNode) : String :=
  let label := r.aliasMark.getD "" ++ n.label
  let value := match r.valueFunction? p n with
    | some function => s!"{function}({label})"
    | none => label
  match p.field with
  | some field => s!"{value}.{field}"
  | none => value

def path (r : Renderer) (p : Path) : Except QueryError String := do
  let q ← if r.resolveAliases then r.scope.resolve p else .ok p
  match q.node with
  | none => .ok q.text
  | some id => do
    let n ← r.forest.node id
    .ok (r.boundPath q n)

/-- A parameter that is a list of several values may need brackets. -/
def parameter (r : Renderer) (name : Option String) (value : Option Value) :
    Except QueryError String :=
  match name with
  | none => .error .parameterUnnamed
  | some name =>
    let items := do (← value.or (r.parameters.find? name)).asList?
    if r.profile.listBrackets && items.any (fun l => l.length > 1) then .ok s!"(:{name})"
    else .ok s!":{name}"

def registeredCall (r : Renderer) (name : String) (arguments : List String) : String :=
  r.profile.opening name (arguments.length + 1) ++ String.intercalate "," arguments ++ ")"

def dynamicCall (name : String) (arguments : List String) : String :=
  s!"FUNCTION('{name}'" ++ String.join (arguments.map ("," ++ ·)) ++ ")"

mutual

def render (r : Renderer) : Expression → Except QueryError String
  | .path p => r.path p
  | .call function arguments =>
    match CallForm.ofFunction function with
    | .outer => r.renderFirst arguments
    | .dynamic =>
      match Expression.dynamicName? arguments with
      | none => .error (.functionUnknown (Expression.plain (.call function arguments)))
      | some name =>
        if r.functions.contains name then do
          let rest ← r.renderRest arguments
          .ok (r.registeredCall name rest)
        else if r.profile.dynamicCalls then do
          let rest ← r.renderRest arguments
          .ok (dynamicCall name rest)
        else .error (.functionUnknown name)
    | .ordinary => do
      let texts ← r.renderList arguments
      .ok (function ++ "(" ++ String.intercalate "," texts ++ ")")
  | .parameter name value => r.parameter name value
  | .element base index => .error (.elementUnresolved (Expression.plain (.element base index)))
  | .literal l => .ok l.plain
  | .subquery selected entity label joins conditions => do
    let item ← r.render selected
    let texts ← r.renderEqualities conditions
    .ok (s!"(SELECT {item} FROM {entity} {label}" ++ Expression.joinsText joins ++
      Expression.whereText texts ++ ")")

/-- The first of a list, or nothing. -/
def renderFirst (r : Renderer) : List Expression → Except QueryError String
  | [] => .ok ""
  | e :: _ => r.render e

/-- All but the first of a list. -/
def renderRest (r : Renderer) : List Expression → Except QueryError (List String)
  | [] => .ok []
  | _ :: es => r.renderList es

def renderList (r : Renderer) : List Expression → Except QueryError (List String)
  | [] => .ok []
  | e :: es => do
    let t ← r.render e
    let ts ← r.renderList es
    .ok (t :: ts)

def renderEqualities (r : Renderer) :
    List (Expression × Expression) → Except QueryError (List String)
  | [] => .ok []
  | (a, b) :: cs => do
    let x ← r.render a
    let y ← r.render b
    let ts ← r.renderEqualities cs
    .ok ((x ++ " = " ++ y) :: ts)

end

def renderCondition (r : Renderer) (p : Predicate) : Except QueryError String := do
  let left ← r.render p.left
  let right ← r.render p.right
  .ok s!"{left} {p.comparison.text} {right}"

end Renderer

end EntityQuery
