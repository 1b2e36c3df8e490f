import EntityQuery.Settings.Basic

/-! The log of an application, which is set up once. -/
namespace EntityQuery

inductive LogLevel where
  | trace | debug | info | warn | error
deriving DecidableEq

namespace LogLevel

def word : LogLevel → String
  | trace => "TRACE"
  | debug => "DEBUG"
  | info => "INFO"
  | warn => "WARN"
  | error => "ERROR"

/-- An unknown level counts as `info`. -/
def ofWord : String → LogLevel
  | "trace" => trace
  | "debug" => debug
  | "warn" => warn
  | "error" => error
  | _ => info

def ofText (s : String) : LogLevel := ofWord (Text.lower s)

end LogLevel

structure Logging where
  level : LogLevel
  json : Bool
deriving DecidableEq

namespace Logging

def ofSettings (level format : String) : Logging :=
  ⟨.ofText level, Text.sameLetters format "json"⟩

def startedTwice : String := "Observability system already initialized"

/-- Sets the log up. One that is set up already stays as it is. -/
def start (present : Option Logging) (level format : String) : Except String Logging :=
  match present with
  | some _ => .error startedTwice
  | none => .ok (ofSettings level format)

end Logging

end EntityQuery
