import EntityQuery.Settings.Toml.Value

/-! Settings from TOML text: entries and headers of tables, each on lines of its own. `none`
says that a text is not of this form. -/
namespace EntityQuery.Toml

/-- What is read so far, and the key of the table whose entries are being read. -/
structure Progress where
  document : Branch
  current : List String

/-- A header up to the end of its line: `enter` is what it does to the table in which it puts
the last part of its key. -/
def readHeader (enter : String → Branch → Option Branch) (closing : List Char) (p : Progress)
    (cs : List Char) : Option (Progress × List Char) := do
  let (key, after) ← readKey cs
  if closing.isPrefixOf after then
    let rest ← endLine? (after.drop closing.length)
    let document ← Branch.change false (enter (← key.getLast?)) key.dropLast p.document
    some (⟨document, key⟩, rest)
  else none

def readEntry (p : Progress) (cs : List Char) : Option (Progress × List Char) := do
  let (key, after) ← readKey cs
  match after with
  | '=' :: rest =>
    let (value, after) ← value? (skipSpace rest)
    let rest ← endLine? after
    let document ← Branch.change false (Branch.defineAt key value) p.current p.document
    some ({ p with document }, rest)
  | _ => none

/-- Every header and every entry is at least one character of the text. -/
def readLines : (fuel : Nat) → Progress → List Char → Option Progress
  | 0, _, _ => none
  | fuel + 1, p, cs =>
    match skipGap false cs with
    | [] => some p
    | '[' :: '[' :: rest => do
      let (p, rest) ← readHeader Branch.pushTable [']', ']'] p rest
      readLines fuel p rest
    | '[' :: rest => do
      let (p, rest) ← readHeader Branch.openTable [']'] p rest
      readLines fuel p rest
    | cs => do
      let (p, rest) ← readEntry p cs
      readLines fuel p rest

/-- The text without a byte order mark, of which one may come first. -/
def dropMark : List Char → List Char
  | '\ufeff' :: rest => rest
  | cs => cs

/-- The entries of a document. One that is a date as a whole has none. -/
def parse? (text : String) : Option (Catalog Setting) := do
  let cs := dropMark text.toList
  let p ← readLines (cs.length + 1) ⟨.table .header [], []⟩ cs
  match ← p.document.toSetting? with
  | .table entries => some entries
  | _ => none

end EntityQuery.Toml
