import EntityQuery.Error

/-! Identifiers and dotted paths. An identifier is a letter, underscore or dollar sign
followed by such characters and digits, all of ASCII; a path is a nonempty list of
identifiers with dots between them. -/
namespace EntityQuery.Text

/-- The texts between the dots, one more than there are dots. -/
def segments (path : String) : List String :=
  (path.toList.splitOnP (· == '.')).map String.ofList

/-- The text before the first dot and, if there is a dot, the text after it. -/
def headAndRest (path : String) : String × Option String :=
  let cs := path.toList
  let head := cs.takeWhile (· != '.')
  match cs.dropWhile (· != '.') with
  | [] => (String.ofList head, none)
  | _ :: rest => (String.ofList head, some (String.ofList rest))

def isNameStart (c : Char) : Bool := c.isAlpha || c == '_' || c == '$'

def isNamePart (c : Char) : Bool := isNameStart c || c.isDigit

def isIdentifier (s : String) : Bool :=
  match s.toList with
  | [] => false
  | c :: cs => isNameStart c && cs.all isNamePart

def checkIdentifier (s : String) : Except QueryError Unit :=
  if s = "" then .error (.identifier .empty)
  else if isIdentifier s then .ok ()
  else .error (.identifier (.malformed s))

/-- The first segment that is no identifier decides the fault. -/
def checkSegments (path : String) : List String → Except QueryError Unit
  | [] => .ok ()
  | s :: rest =>
    if s = "" then .error (.identifier (.emptySegment path))
    else do
      checkIdentifier s
      checkSegments path rest

def checkPath (path : String) : Except QueryError Unit :=
  if path = "" then .error (.identifier .emptyPath)
  else checkSegments path (segments path)

example : segments "a..b" = ["a", "", "b"] := by decide

example : headAndRest "d.owner.name" = ("d", some "owner.name") := by decide

end EntityQuery.Text
