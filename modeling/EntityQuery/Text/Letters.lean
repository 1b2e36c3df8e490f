/-! Letter case. Keywords, function names and profile names are compared without
regard to the case of the ASCII letters; every other character stands for itself. -/
namespace EntityQuery.Text

def upper (s : String) : String := String.ofList (s.toList.map Char.toUpper)

def lower (s : String) : String := String.ofList (s.toList.map Char.toLower)

/-- Equality up to the case of ASCII letters, on characters. -/
def sameLetter (c d : Char) : Bool := c.toLower == d.toLower

/-- Equality up to the case of ASCII letters. -/
def sameLetters (s t : String) : Bool := lower s == lower t

/-- The lower case of a name from outside. Besides the ASCII capitals only the
Kelvin sign has an ASCII letter as its lower case. -/
def foldName (s : String) : String :=
  String.ofList (s.toList.map fun c => if c == '\u212a' then 'k' else c.toLower)

/-- Does `cs` begin with `word`, up to the case of ASCII letters? -/
def startsWithLetters : List Char → List Char → Bool
  | [], _ => true
  | _ :: _, [] => false
  | w :: ws, c :: cs => sameLetter w c && startsWithLetters ws cs

/-- `text` cut before the first place where `word` stands, up to the case of ASCII letters. -/
def cutBefore (word : List Char) : List Char → Option (List Char × List Char)
  | [] => if startsWithLetters word [] then some ([], []) else none
  | c :: cs =>
    if startsWithLetters word (c :: cs) then some ([], c :: cs)
    else (cutBefore word cs).map fun (before, rest) => (c :: before, rest)

/-- The number of bytes of UTF-8 before the first place where `word` stands in `text`,
up to the case of ASCII letters. -/
def offsetOf (text word : String) : Option Nat :=
  (cutBefore word.toList text.toList).map fun (before, _) => (String.ofList before).utf8ByteSize

example : sameLetters "OuTeR" "outer" = true := by decide

example : offsetOf "ééFROM" "from" = some 4 := by decide

end EntityQuery.Text
