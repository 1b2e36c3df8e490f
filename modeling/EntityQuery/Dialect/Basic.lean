import EntityQuery.Error
import EntityQuery.Text.Blank
import EntityQuery.Text.Letters

/-! SQL dialects as data: what a database accepts, and how it writes a limit. -/
namespace EntityQuery

/-- `LIMIT count OFFSET first` or `LIMIT first, count`. -/
inductive LimitForm where
  | countOffset | offsetCount
deriving DecidableEq

/-- `modifiesInWith` says that a modification can stand in a WITH clause, where the state
that it leaves has to be rebuilt from the rows that it returns. `groupsOperands` puts the
operands of a set operation between parentheses where a clause follows them all. -/
structure Dialect where
  name : String
  allowsWith : Bool
  returnsColumns : Bool
  modifiesInWith : Bool
  intersects : Bool
  excepts : Bool
  limitForm : LimitForm
  groupsOperands : Bool
deriving DecidableEq

namespace Dialect

def standard : Dialect where
  name := "default"
  allowsWith := true
  returnsColumns := false
  modifiesInWith := false
  intersects := true
  excepts := true
  limitForm := .countOffset
  groupsOperands := false

def postgres : Dialect :=
  { standard with
    name := "postgres", returnsColumns := true, modifiesInWith := true, groupsOperands := true }

def mysql : Dialect :=
  { standard with
    name := "mysql", intersects := false, excepts := false, limitForm := .offsetCount }

def ofWord? : String → Option Dialect
  | "default" => some standard
  | "postgres" => some postgres
  | "postgresql" => some postgres
  | "mysql" => some mysql
  | _ => none

/-- Blanks around the name and its letter case do not matter. -/
def ofName (name : String) : Except QueryError Dialect :=
  let word := Text.lower (Text.trimmed name)
  match ofWord? word with
  | some d => .ok d
  | none => .error (.configuration (.dialectUnknown word))

def limitText (d : Dialect) (limit : String) (offset : Option String) : String :=
  match offset, d.limitForm with
  | none, _ => s!" limit {limit}"
  | some o, .countOffset => s!" limit {limit} offset {o}"
  | some o, .offsetCount => s!" limit {o}, {limit}"

/-- The text of a limit, or nothing where there is none; an offset alone is not written. -/
def optionalLimit (d : Dialect) (limit offset : Option String) : String :=
  match limit with
  | some l => d.limitText l offset
  | none => ""

end Dialect

end EntityQuery
