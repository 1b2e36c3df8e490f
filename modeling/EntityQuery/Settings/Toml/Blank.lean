/-! What stands between the parts of a TOML text: blanks, ends of lines and comments. -/
namespace EntityQuery.Toml

def isSpace (c : Char) : Bool := c == ' ' || c == '\t'

/-- A character that comments and texts may hold: of the controls only the tab. -/
def isPlain (c : Char) : Bool := c == '\t' || (0x20 ≤ c.toNat && c.toNat != 0x7F)

def skipSpace (cs : List Char) : List Char := cs.dropWhile isSpace

/-- The text after an end of line. -/
def newline? : List Char → Option (List Char)
  | '\n' :: rest => some rest
  | '\r' :: '\n' :: rest => some rest
  | _ => none

/-- The text after blanks, ends of lines and comments; `comment` says that one has begun. -/
def skipGap : (comment : Bool) → List Char → List Char
  | _, [] => []
  | _, '\n' :: rest => skipGap false rest
  | _, '\r' :: '\n' :: rest => skipGap false rest
  | true, c :: rest => if isPlain c then skipGap true rest else c :: rest
  | false, c :: rest =>
    if isSpace c then skipGap false rest
    else if c == '#' then skipGap true rest
    else c :: rest

/-- The text of the next lines, where only a blank and a comment are left of this one. -/
def endLine? (cs : List Char) : Option (List Char) :=
  let rest := match skipSpace cs with
    | '#' :: rest => rest.dropWhile isPlain
    | rest => rest
  if rest.isEmpty then some [] else newline? rest

end EntityQuery.Toml
