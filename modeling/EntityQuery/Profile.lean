import EntityQuery.Error
import EntityQuery.Text.Blank
import EntityQuery.Text.Letters

/-! Persistence providers: what the language of a provider asks of a rendered query. -/
namespace EntityQuery

inductive Provider where
  | hibernate | eclipseLink | dataNucleus | standard
deriving DecidableEq

namespace Provider

def word : Provider → String
  | hibernate => "hibernate"
  | eclipseLink => "eclipselink"
  | dataNucleus => "datanucleus"
  | standard => "standard"

def ofWord? : String → Option Provider
  | "hibernate" => some hibernate
  | "eclipselink" => some eclipseLink
  | "datanucleus" => some dataNucleus
  | "standard" => some standard
  | _ => none

/-- Blanks around the name and its letter case do not matter. -/
def ofName (name : String) : Except QueryError Provider :=
  let word := Text.lower (Text.trimmed name)
  match ofWord? word with
  | some p => .ok p
  | none => .error (.configuration (.profileUnknown word))

end Provider

/-- How a registered function is called: under its name, or by the function OPERATOR with
its name as the first argument. -/
inductive CallStyle where
  | direct | operator
deriving DecidableEq

namespace CallStyle

def word : CallStyle → String
  | direct => "direct"
  | operator => "operator"

end CallStyle

/-- `dynamicCalls` says that FUNCTION is understood; `valueFunction` reads the value of an
element of an indexed collection; `listBrackets` asks for brackets around a parameter that
is a list. -/
structure Profile where
  provider : Provider
  callStyle : CallStyle
  dynamicCalls : Bool
  valueFunction : Option String
  listBrackets : Bool
deriving DecidableEq

namespace Profile

def preset : Provider → Profile
  | .hibernate => ⟨.hibernate, .direct, true, none, true⟩
  | .eclipseLink => ⟨.eclipseLink, .operator, true, some "VALUE", false⟩
  | p => ⟨p, .direct, true, some "VALUE", false⟩

/-- The opening of a call of a registered function. `arguments` counts the name as well, and
a comma follows the name where more are to come. -/
def opening (p : Profile) (function : String) (arguments : Nat) : String :=
  match p.callStyle with
  | .direct => s!"{function}("
  | .operator => if arguments > 1 then s!"OPERATOR('{function}'," else s!"OPERATOR('{function}'"

end Profile

end EntityQuery
