/-! Digits of base 16 and of smaller bases; letters count in either case. -/
namespace EntityQuery.Text

def hexDigit? (c : Char) : Option Nat :=
  if '0' ≤ c ∧ c ≤ '9' then some (c.toNat - '0'.toNat)
  else if 'a' ≤ c ∧ c ≤ 'f' then some (c.toNat - 'a'.toNat + 10)
  else if 'A' ≤ c ∧ c ≤ 'F' then some (c.toNat - 'A'.toNat + 10)
  else none

def isDigitOf (base : Nat) (c : Char) : Bool := (hexDigit? c).any (· < base)

/-- The number that digits write. -/
def ofDigits? (base : Nat) (digits : List Char) : Option Nat :=
  digits.foldlM (fun n c => (hexDigit? c).map (base * n + ·)) 0

example : ofDigits? 16 "1Fa".toList = some 506 := by decide

end EntityQuery.Text
