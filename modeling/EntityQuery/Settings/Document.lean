import EntityQuery.Binary64.Decimal
import EntityQuery.Catalog
import EntityQuery.Text.Letters
import EntityQuery.Value.Text

/-! Settings before they have types: trees of named entries and of lists, into which the
entries of one source after the other are put. Names are kept in small letters. -/
namespace EntityQuery

inductive Setting where
  | absent
  | flag (b : Bool)
  | whole (n : Int)
  | float (x : Binary64)
  | text (s : String)
  | list (items : List Setting)
  | table (entries : List (String × Setting))
deriving Inhabited

/-- A step into a tree: to the entry of a name, or to the item at a position, which counts
from the end where it is negative. -/
inductive Place where
  | entry (name : String)
  | item (position : Int)
deriving DecidableEq

namespace Setting

/-- The entries of a table; what is no table has none. -/
def entries : Setting → Catalog Setting
  | table es => es
  | _ => []

mutual

/-- Puts a value under a name. A table is put entry by entry into what is there, and
what is no table gives way to one. -/
def put (root : Setting) (name : String) : Setting → Setting
  | table es =>
    let key := Text.foldName name
    let target := (Catalog.find? key root.entries).getD (table [])
    table (Catalog.insert key (putAll target es) root.entries)
  | value => table (Catalog.insert (Text.foldName name) value root.entries)

def putAll (root : Setting) : List (String × Setting) → Setting
  | [] => root
  | (name, value) :: rest => putAll (put root name value) rest

end

/-- The items of a list; what is no list has none. -/
def items : Setting → List Setting
  | list items => items
  | _ => []

/-- The position as a count from the front, where it does not lie before the front. -/
def index? (position : Int) (length : Nat) : Option Nat :=
  if 0 ≤ position then some position.toNat
  else if position.natAbs ≤ length then some (length - position.natAbs)
  else none

/-- The items with `value` at an index, after absent ones where the list is too short. -/
def withItem (items : List Setting) (index : Nat) (value : Setting) : List Setting :=
  (items ++ List.replicate (index + 1 - items.length) absent).set index value

/-- Puts a value at a place. What is in the way, because it is no table or no list, gives way
to one. -/
def putAt (value : Setting) : List Place → Setting → Option Setting
  | [], _ => some value
  | [.entry name], root => some (put root name value)
  | .entry name :: places, root => do
    let key := Text.foldName name
    let inner ← putAt value places ((Catalog.find? key root.entries).getD absent)
    some (table (Catalog.insert key inner root.entries))
  | .item position :: places, root => do
    let index ← index? position root.items.length
    let inner ← putAt value places (root.items.getD index absent)
    some (list (withItem root.items index inner))

/-- The characters of the names in a key. -/
def isKeyChar (c : Char) : Bool := c.isAlphanum || c == ' ' || c == '_' || c == '-'

def isBlank (c : Char) : Bool := c == ' ' || c == '\t'

/-- A position between brackets, of 64 bits, with spaces and tabs around it, and what follows the
closing bracket. -/
def readPosition (cs : List Char) : Option (Int × List Char) :=
  let (negative, cs) := match cs.dropWhile isBlank with
    | '-' :: cs => (true, cs)
    | cs => (false, cs)
  let digits := cs.takeWhile Char.isDigit
  let n : Int := Decimal.readDigits 0 digits
  let position := if negative then -n else n
  let small : Bool := Int64.minValue.toInt ≤ position && position ≤ Int64.maxValue.toInt
  match (cs.dropWhile Char.isDigit).dropWhile isBlank with
  | ']' :: rest => if digits.isEmpty || !small then none else some (position, rest)
  | _ => none

/-- The steps after the first name of a key; each has at least one character. -/
def readPlaces : (fuel : Nat) → List Char → Option (List Place)
  | _, [] => some []
  | 0, _ => none
  | fuel + 1, '.' :: cs =>
    if (cs.takeWhile isKeyChar).isEmpty then none
    else (readPlaces fuel (cs.dropWhile isKeyChar)).map
      (.entry (String.ofList (cs.takeWhile isKeyChar)) :: ·)
  | fuel + 1, '[' :: cs => do
    let (position, rest) ← readPosition cs
    (readPlaces fuel rest).map (.item position :: ·)
  | _, _ => none

/-- The place of a key: names with dots between them, and positions in brackets. A key that
is not of this form is one name. -/
def keyPlaces (key : String) : List Place :=
  let cs := key.toList
  let name := cs.takeWhile isKeyChar
  match if name.isEmpty then none else readPlaces cs.length (cs.dropWhile isKeyChar) with
  | some places => .entry (String.ofList name) :: places
  | none => [.entry key]

example : keyPlaces "a.b[-1]" = [.entry "a", .entry "b", .item (-1)] := by decide +kernel

example : keyPlaces "a..b" = [.entry "a..b"] := by decide +kernel

def putKey (root : Setting) (key : String) (value : Setting) : Option Setting :=
  putAt value (keyPlaces key) root

/-- The words for yes and no, in any letter case. -/
def flagOfWord? : String → Option Bool
  | "1" | "true" | "on" | "yes" => some true
  | "0" | "false" | "off" | "no" => some false
  | _ => none

def asText? : Setting → Option String
  | text s => some s
  | flag b => some (Value.truthText b)
  | whole n => some (toString n)
  | float x => some x.text
  | _ => none

/-- A number other than zero is true. -/
def asFlag? : Setting → Option Bool
  | flag b => some b
  | whole n => some (n != 0)
  | float x => some (x.magnitude != 0)
  | text s => flagOfWord? (Text.lower s)
  | _ => none

def asTexts? : Setting → Option (List String)
  | list items => items.mapM asText?
  | _ => none

/-- Reads what may be absent. -/
def optionally {α : Type} (read : Setting → Option α) : Setting → Option (Option α)
  | absent => some none
  | s => (read s).map some

/-- The fields of a record: a table has them under their names, a list in their order. -/
def fields? (names : List String) : Setting → Option (List (String × Setting))
  | table entries => some entries
  | list items => some (names.zip items)
  | _ => none

end Setting

end EntityQuery
