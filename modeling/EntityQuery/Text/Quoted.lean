/-! String literals: a text between single quotes in which a quote is written twice. -/
namespace EntityQuery.Text

/-- Every quote twice, all else once. -/
def doubleQuotes : List Char → List Char
  | [] => []
  | c :: cs => if c = '\'' then '\'' :: '\'' :: doubleQuotes cs else c :: doubleQuotes cs

/-- Pairs of quotes, from the left, become one. A quote that stands alone stays. -/
def undoubleQuotes : List Char → List Char
  | '\'' :: '\'' :: cs => '\'' :: undoubleQuotes cs
  | c :: cs => c :: undoubleQuotes cs
  | [] => []

def quoted (s : String) : String := "'" ++ String.ofList (doubleQuotes s.toList) ++ "'"

theorem toList_quoted (s : String) :
    (quoted s).toList = '\'' :: (doubleQuotes s.toList ++ ['\'']) := by
  simp [quoted]

/-- The characters between a first and a last quote, if there are two. -/
def betweenQuotes? : List Char → Option (List Char)
  | '\'' :: c :: cs => if (c :: cs).getLast? = some '\'' then some (c :: cs).dropLast else none
  | _ => none

theorem undoubleQuotes_doubleQuotes (cs : List Char) : undoubleQuotes (doubleQuotes cs) = cs := by
  induction cs with
  | nil => rfl
  | cons c cs ih =>
    by_cases h : c = '\''
    · simp [doubleQuotes, h, undoubleQuotes, ih]
    · simp [doubleQuotes, h, undoubleQuotes, ih]

theorem betweenQuotes?_quoted (cs : List Char) :
    betweenQuotes? ('\'' :: (cs ++ ['\''])) = some cs := by
  cases cs with
  | nil => rfl
  | cons c cs => simp [betweenQuotes?, List.getLast?_cons, List.dropLast_cons_of_ne_nil]

example : quoted "it's" = "'it''s'" := by decide

end EntityQuery.Text
