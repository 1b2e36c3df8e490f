import EntityQuery.Binary64.Basic

/-! Rounding a quotient of natural numbers to the nearest binary64 number, a tie to the
even pattern. Patterns of finite numbers grow with their value, so a carry out of the
fraction needs no case of its own. -/
namespace EntityQuery.Binary64

/-- `num / den` to the nearest natural number, a tie to the even one. -/
def roundQuotient (num den : Nat) : Nat :=
  let q := num / den
  let r := num % den
  if 2 * r < den then q else if den < 2 * r then q + 1 else q + q % 2

/-- `num / den * 2 ^ -q`, rounded. -/
def scaleQuotient (num den : Nat) (q : Int) : Nat :=
  if 0 ≤ q then roundQuotient num (den * twoTo q.toNat)
  else roundQuotient (num * twoTo (-q).toNat) den

/-- The exponent that leaves 53 significant bits before the point of `num / den`, but none
below that of the subnormal numbers. -/
def unitExponent (num den : Nat) : Int :=
  let guess : Int := (Nat.log2 num : Int) - Nat.log2 den - 52
  let fits := if 0 ≤ guess then den * twoTo guess.toNat * twoTo 52 ≤ num
    else den * twoTo 52 ≤ num * twoTo (-guess).toNat
  max (-1074) (if fits then guess else guess - 1)

/-- The binary64 number nearest to `num / den`. -/
def ofQuotient (negative : Bool) (num den : Nat) : Binary64 :=
  if num = 0 then ofMagnitude negative 0
  else
    let q := unitExponent num den
    let magnitude : Int := (q + 1074) * twoTo 52 + scaleQuotient num den q
    if infiniteMagnitude ≤ magnitude then infinity negative
    else ofMagnitude negative magnitude.toNat

def ofInt (n : Int) : Binary64 := ofQuotient (n < 0) n.natAbs 1

/-- The number nearest to `coefficient * 10 ^ exponent`. Beyond the range of the format the
power of ten is not computed: from 10^310 on all is infinite, below 10^-330 all is zero. -/
def ofDecimal (negative : Bool) (coefficient : Nat) (exponent : Int) : Binary64 :=
  if coefficient = 0 then ofMagnitude negative 0
  else
    let digits : Int := (Nat.toDigits 10 coefficient).length
    if 310 < digits + exponent then infinity negative
    else if digits + exponent < -330 then ofMagnitude negative 0
    else if 0 ≤ exponent then ofQuotient negative (coefficient * tenTo exponent.toNat) 1
    else ofQuotient negative coefficient (tenTo (-exponent).toNat)

example : (ofInt 9007199254740993).bits = 0x4340000000000000 := by decide

example : (ofDecimal false 1 (-1)).bits = 0x3FB999999999999A := by decide +kernel

end EntityQuery.Binary64
