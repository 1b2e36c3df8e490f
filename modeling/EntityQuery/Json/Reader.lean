import EntityQuery.Json.Basic
import EntityQuery.Text.Hexadecimal

/-! Reading JSON text. A document is one value between blanks. Arrays and objects may nest
127 deep; below that, text is still checked and stands for nothing. -/
namespace EntityQuery.Json

def isSpace (c : Char) : Bool := c == ' ' || c == '\t' || c == '\n' || c == '\r'

def skipSpace (cs : List Char) : List Char := cs.dropWhile isSpace

def hexUnit? (a b c d : Char) : Option Nat := Text.ofDigits? 16 [a, b, c, d]

/-- The character of two surrogate units. -/
def pairChar? (high low : Nat) : Option Char :=
  if 0xD800 ≤ high ∧ high < 0xDC00 ∧ 0xDC00 ≤ low ∧ low < 0xE000 then
    some (Char.ofNat (0x10000 + (high - 0xD800) * 0x400 + (low - 0xDC00)))
  else none

/-- The character of one unit; a surrogate alone is none. -/
def unitChar? (unit : Nat) : Option Char :=
  if 0xD800 ≤ unit ∧ unit < 0xE000 then none else some (Char.ofNat unit)

def shortEscape? : Char → Option Char
  | '"' => some '"'
  | '\\' => some '\\'
  | '/' => some '/'
  | 'b' => some '\x08'
  | 'f' => some '\x0c'
  | 'n' => some '\n'
  | 'r' => some '\r'
  | 't' => some '\t'
  | _ => none

/-- The content of a string that goes on with `char`. -/
def consChar (char : Option Char) (content : Option (List Char)) : Option (List Char) := do
  some ((← char) :: (← content))

/-- The content of a string up to its closing quote, and what follows. A string with half of
a surrogate pair has no content. -/
def readString : List Char → Option (Option (List Char) × List Char)
  | [] => none
  | '"' :: rest => some (some [], rest)
  | '\\' :: 'u' :: a :: b :: c :: d :: '\\' :: 'u' :: e :: f :: g :: h :: rest => do
    let unit ← hexUnit? a b c d
    match (hexUnit? e f g h).bind (pairChar? unit) with
    | some char =>
      let (content, after) ← readString rest
      some (consChar char content, after)
    | none =>
      let (content, after) ← readString ('\\' :: 'u' :: e :: f :: g :: h :: rest)
      some (consChar (unitChar? unit) content, after)
  | '\\' :: 'u' :: a :: b :: c :: d :: rest => do
    let unit ← hexUnit? a b c d
    let (content, after) ← readString rest
    some (consChar (unitChar? unit) content, after)
  | '\\' :: e :: rest => do
    let char ← shortEscape? e
    let (content, after) ← readString rest
    some (consChar char content, after)
  | c :: rest =>
    if c.toNat < 0x20 then none
    else do
      let (content, after) ← readString rest
      some (consChar c content, after)

def ofContent : Option (List Char) → Json
  | some content => string (String.ofList content)
  | none => void

def isNumberChar (c : Char) : Bool :=
  c.isDigit || c == '-' || c == '+' || c == '.' || c == 'e' || c == 'E'

/-- An optional minus, digits without a leading zero, digits after a point, an exponent. -/
def readNumber (token : List Char) : Option Json :=
  let (negative, cs) := match token with
    | '-' :: cs => (true, cs)
    | cs => (false, cs)
  let whole := cs.takeWhile Char.isDigit
  let rest := cs.dropWhile Char.isDigit
  let pointAlone := match rest with
    | '.' :: c :: _ => !c.isDigit
    | ['.'] => true
    | _ => false
  if whole.isEmpty || (whole.head? == some '0' && 1 < whole.length) || pointAlone then none
  else (Decimal.readUnsigned negative cs).map fun d =>
    if d.toBinary64.isFinite then number d rest.isEmpty else void

def readWord : List Char → Option (Json × List Char)
  | 'n' :: 'u' :: 'l' :: 'l' :: rest => some (null, rest)
  | 't' :: 'r' :: 'u' :: 'e' :: rest => some (bool true, rest)
  | 'f' :: 'a' :: 'l' :: 's' :: 'e' :: rest => some (bool false, rest)
  | cs => (readNumber (cs.takeWhile isNumberChar)).map (·, cs.dropWhile isNumberChar)

/-- An object whose names all have a content. -/
def ofMembers (members : List (Option (List Char) × Json)) : Json :=
  match members.mapM fun (name, json) => name.map (String.ofList ·, json) with
  | some members => object members
  | none => void

/-- What an array or object is where `depth` more levels are allowed. -/
def within (depth : Nat) (json : Json) : Json := if depth = 0 then void else json

mutual

/-- A value after blanks, with the text that follows it. -/
def readValue : (fuel depth : Nat) → List Char → Option (Json × List Char)
  | 0, _, _ => none
  | fuel + 1, depth, cs =>
    match skipSpace cs with
    | '"' :: rest => (readString rest).map fun (content, after) => (ofContent content, after)
    | '[' :: rest =>
      match skipSpace rest with
      | ']' :: after => some (within depth (array []), after)
      | rest => (readItems fuel (depth - 1) rest).map fun (items, after) =>
        (within depth (array items), after)
    | '\x7b' :: rest =>
      match skipSpace rest with
      | '\x7d' :: after => some (within depth (object []), after)
      | rest => (readMembers fuel (depth - 1) rest).map fun (members, after) =>
        (within depth (ofMembers members), after)
    | rest => readWord rest

def readItems : (fuel depth : Nat) → List Char → Option (List Json × List Char)
  | 0, _, _ => none
  | fuel + 1, depth, cs => do
    let (item, rest) ← readValue fuel depth cs
    match skipSpace rest with
    | ',' :: rest =>
      let (items, after) ← readItems fuel depth rest
      some (item :: items, after)
    | ']' :: after => some ([item], after)
    | _ => none

def readMembers : (fuel depth : Nat) → List Char →
    Option (List (Option (List Char) × Json) × List Char)
  | 0, _, _ => none
  | fuel + 1, depth, cs =>
    match skipSpace cs with
    | '"' :: rest => do
      let (name, rest) ← readString rest
      match skipSpace rest with
      | ':' :: rest =>
        let (value, rest) ← readValue fuel depth rest
        match skipSpace rest with
        | ',' :: rest =>
          let (members, after) ← readMembers fuel depth rest
          some ((name, value) :: members, after)
        | '\x7d' :: after => some ([(name, value)], after)
        | _ => none
      | _ => none
    | _ => none

end

/-- Each level of nesting spends two units of fuel on one character, each further item or
member one unit on two. -/
def parse? (text : String) : Option Json :=
  let cs := text.toList
  match readValue (2 * cs.length + 2) 127 cs with
  | some (json, rest) => if (skipSpace rest).isEmpty then some json else none
  | none => none

end EntityQuery.Json
