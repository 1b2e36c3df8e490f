import EntityQuery.Text.Unshown

/-! Keys between double quotes: quotes, backslashes and the common controls have short
escapes, other unshown characters their code point in hexadecimal. -/
namespace EntityQuery.Text

def escapedChar (c : Char) : List Char :=
  match c with
  | '\x00' => ['\\', '0']
  | '\t' => ['\\', 't']
  | '\n' => ['\\', 'n']
  | '\r' => ['\\', 'r']
  | '"' => ['\\', '"']
  | '\\' => ['\\', '\\']
  | c => if isUnshown c then ['\\', 'u', '\x7b'] ++ Nat.toDigits 16 c.toNat ++ ['\x7d'] else [c]

def escapedKey (s : String) : String :=
  "\"" ++ String.ofList (s.toList.flatMap escapedChar) ++ "\""

example : escapedKey "a\u0301\n" = "\"a\\u\x7b301\x7d\\n\"" := by decide +kernel

end EntityQuery.Text
