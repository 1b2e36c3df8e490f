import EntityQuery.Settings.Toml.Branch
import EntityQuery.Settings.Toml.Number
import EntityQuery.Settings.Toml.Quoted

/-! TOML keys and values. Keys have fewer than 80 parts, and lists and tables in braces nest
fewer than 80 deep. -/
namespace EntityQuery.Toml

def isBareKeyChar (c : Char) : Bool := c.isAlphanum || c == '_' || c == '-'

/-- A part of a key: bare, or quoted on one line. -/
def readKeyPart : List Char → Option (List Char × List Char)
  | '"' :: rest => readBasic rest
  | '\'' :: rest => readLiteral rest
  | cs =>
    match cs.takeWhile isBareKeyChar with
    | [] => none
    | part => some (part, cs.dropWhile isBareKeyChar)

/-- Parts with dots between them, of which there are no more than characters. -/
def readKeyParts : (fuel : Nat) → List Char → Option (List String × List Char)
  | 0, _ => none
  | fuel + 1, cs => do
    let (part, after) ← readKeyPart (skipSpace cs)
    match skipSpace after with
    | '.' :: rest =>
      let (parts, after) ← readKeyParts fuel rest
      some (String.ofList part :: parts, after)
    | rest => some ([String.ofList part], rest)

def readKey (cs : List Char) : Option (List String × List Char) := do
  let (key, after) ← readKeyParts (cs.length + 1) cs
  if key.length < 80 then some (key, after) else none

def isTokenChar (c : Char) : Bool :=
  c.isAlphanum || c == '+' || c == '-' || c == '.' || c == '_' || c == ':'

/-- What a token without quotes means. -/
def ofToken? (token : List Char) : Option Branch :=
  if token = "true".toList then some (.leaf (.flag true))
  else if token = "false".toList then some (.leaf (.flag false))
  else
    match integer? token, float? token with
    | some n, _ => some (.leaf (.whole n))
    | none, some x => some (.leaf (.float x))
    | none, none => (Moment.ofText? token).map .moment

/-- A date and its time may have a blank between them. -/
def readToken (cs : List Char) : List Char × List Char :=
  let token := cs.takeWhile isTokenChar
  match cs.dropWhile isTokenChar with
  | ' ' :: d :: rest =>
    if (Moment.ofText? token).isSome && d.isDigit then
      (token ++ ' ' :: (d :: rest).takeWhile isTokenChar, (d :: rest).dropWhile isTokenChar)
    else (token, ' ' :: d :: rest)
  | after => (token, after)

mutual

/-- A value in front of a text, where lists and tables may still nest `depth` deep. -/
def readValue : (fuel depth : Nat) → List Char → Option (Branch × List Char)
  | 0, _, _ => none
  | fuel + 1, depth, cs =>
    match cs, depth with
    | '[' :: rest, depth + 1 => do
      let (items, after) ← readItems fuel depth rest
      some (.list items, after)
    | '\x7b' :: rest, depth + 1 =>
      match skipSpace rest with
      | '\x7d' :: after => some (.table .braces [], after)
      | rest => readEntries fuel depth (.table .braces []) rest
    | cs, _ =>
      match readQuoted? cs with
      | some (content, after) => some (.leaf (.text (String.ofList content)), after)
      | none =>
        let (token, after) := readToken cs
        (ofToken? token).map (·, after)

/-- The items of a list up to its closing bracket; a comma may follow the last one. -/
def readItems : (fuel depth : Nat) → List Char → Option (List Branch × List Char)
  | 0, _, _ => none
  | fuel + 1, depth, cs =>
    match skipGap false cs with
    | ']' :: after => some ([], after)
    | cs => do
      let (item, after) ← readValue fuel depth cs
      match skipGap false after with
      | ',' :: rest =>
        let (items, after) ← readItems fuel depth rest
        some (item :: items, after)
      | ']' :: after => some ([item], after)
      | _ => none

/-- The entries of a table in braces, all on one line, up to its closing brace. -/
def readEntries : (fuel depth : Nat) → Branch → List Char → Option (Branch × List Char)
  | 0, _, _, _ => none
  | fuel + 1, depth, table, cs => do
    let (key, after) ← readKey cs
    match after with
    | '=' :: rest =>
      let (value, after) ← readValue fuel depth (skipSpace rest)
      let table ← Branch.defineAt key value table
      match skipSpace after with
      | ',' :: rest => readEntries fuel depth table rest
      | '\x7d' :: after => some (table, after)
      | _ => none
    | _ => none

end

/-- Each value, item and entry is at least one character of the text. -/
def value? (cs : List Char) : Option (Branch × List Char) :=
  readValue (2 * cs.length + 2) 79 cs

end EntityQuery.Toml
