import EntityQuery.Settings.Toml.Blank
import EntityQuery.Text.Hexadecimal

/-! Quoted TOML texts. Between double quotes a backslash begins an escape, between single
quotes every character stands for itself. Three quotes open a text that may go over lines;
up to two further quotes before the three that close it belong to it. Readers give the
content and what follows the closing quotes. -/
namespace EntityQuery.Toml

/-- The character whose code point the digits write. -/
def charOfDigits? (digits : List Char) : Option Char := do
  let n ← Text.ofDigits? 16 digits
  if n.isValidChar then some (Char.ofNat n) else none

def shortEscape? : Char → Option Char
  | 'b' => some '\x08'
  | 't' => some '\t'
  | 'n' => some '\n'
  | 'f' => some '\x0c'
  | 'r' => some '\r'
  | '"' => some '"'
  | '\\' => some '\\'
  | _ => none

/-- A content that begins with `c`. -/
def consContent (c : Char) (read : Option (List Char × List Char)) :
    Option (List Char × List Char) :=
  read.map fun (content, after) => (c :: content, after)

def readBasic : List Char → Option (List Char × List Char)
  | [] => none
  | '"' :: rest => some ([], rest)
  | '\\' :: 'u' :: a :: b :: c :: d :: rest => do
    consContent (← charOfDigits? [a, b, c, d]) (readBasic rest)
  | '\\' :: 'U' :: a :: b :: c :: d :: e :: f :: g :: h :: rest => do
    consContent (← charOfDigits? [a, b, c, d, e, f, g, h]) (readBasic rest)
  | '\\' :: e :: rest => do consContent (← shortEscape? e) (readBasic rest)
  | c :: rest => if isPlain c then consContent c (readBasic rest) else none

def readLiteral : List Char → Option (List Char × List Char)
  | [] => none
  | '\'' :: rest => some ([], rest)
  | c :: rest => if isPlain c then consContent c (readLiteral rest) else none

/-- What follows three closing quotes: of further ones, up to two are content. -/
def closeLong (quote : Char) : List Char → List Char × List Char
  | c :: d :: rest =>
    if c == quote then if d == quote then ([c, d], rest) else ([c], d :: rest)
    else ([], c :: d :: rest)
  | [c] => if c == quote then ([c], []) else ([], [c])
  | [] => ([], [])

/-- A backslash at the end of a line joins it with what follows all blanks and ends of lines
after it; `joining` says that these are being passed over. -/
def readLongBasic : (joining : Bool) → List Char → Option (List Char × List Char)
  | _, [] => none
  | true, '\n' :: rest => readLongBasic true rest
  | true, '\r' :: '\n' :: rest => readLongBasic true rest
  | true, ' ' :: rest => readLongBasic true rest
  | true, '\t' :: rest => readLongBasic true rest
  | _, '\n' :: rest => consContent '\n' (readLongBasic false rest)
  | _, '\r' :: '\n' :: rest => consContent '\n' (readLongBasic false rest)
  | _, '"' :: '"' :: '"' :: rest => some (closeLong '"' rest)
  | _, '\\' :: 'u' :: a :: b :: c :: d :: rest => do
    consContent (← charOfDigits? [a, b, c, d]) (readLongBasic false rest)
  | _, '\\' :: 'U' :: a :: b :: c :: d :: e :: f :: g :: h :: rest => do
    consContent (← charOfDigits? [a, b, c, d, e, f, g, h]) (readLongBasic false rest)
  | _, '\\' :: e :: rest =>
    if (newline? (skipSpace (e :: rest))).isSome then readLongBasic true (e :: rest)
    else do consContent (← shortEscape? e) (readLongBasic false rest)
  | _, c :: rest => if isPlain c then consContent c (readLongBasic false rest) else none

def readLongLiteral : List Char → Option (List Char × List Char)
  | [] => none
  | '\n' :: rest => consContent '\n' (readLongLiteral rest)
  | '\r' :: '\n' :: rest => consContent '\n' (readLongLiteral rest)
  | '\'' :: '\'' :: '\'' :: rest => some (closeLong '\'' rest)
  | c :: rest => if isPlain c then consContent c (readLongLiteral rest) else none

/-- An end of line right after three opening quotes is no content. -/
def dropNewline (cs : List Char) : List Char := (newline? cs).getD cs

/-- A quoted text of any of the four forms. -/
def readQuoted? : List Char → Option (List Char × List Char)
  | '"' :: '"' :: '"' :: rest => readLongBasic false (dropNewline rest)
  | '"' :: rest => readBasic rest
  | '\'' :: '\'' :: '\'' :: rest => readLongLiteral (dropNewline rest)
  | '\'' :: rest => readLiteral rest
  | _ => none

example : readQuoted? "'''a'b''''c".toList = some ("a'b'".toList, ['c']) := by decide +kernel

example : readQuoted? "\"\"\"\na\\\n  b\"\"\"".toList = some (['a', 'b'], []) := by decide +kernel

end EntityQuery.Toml
