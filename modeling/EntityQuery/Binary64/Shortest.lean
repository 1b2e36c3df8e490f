import EntityQuery.Binary64.Basic

/-! The shortest decimal that reads back as a given binary64 number. Powers of ten are tried
from coarse to fine; on each grid only the two neighbours of the number can lie in the
interval of what rounds to it. -/
namespace EntityQuery.Binary64

/-- A number and the ends of its interval of rounding as multiples of `2 ^ unit`; the
ends belong to the interval when `closed`. -/
structure Interval where
  low : Nat
  mid : Nat
  high : Nat
  unit : Int
  closed : Bool

/-- Below a power of two the numbers lie twice as dense. -/
def interval (x : Binary64) : Interval :=
  let (m, q) := x.decode
  { low := if m = twoTo 52 ∧ -1074 < q then 4 * m - 1 else 4 * m - 2
    mid := 4 * m
    high := 4 * m + 2
    unit := q - 2
    closed := m % 2 = 0 }

/-- `10 ^ k` and `2 ^ unit` as multiples of a common unit. -/
def commonUnits (k unit : Int) : Nat × Nat :=
  (tenTo k.toNat * twoTo (-unit).toNat, twoTo unit.toNat * tenTo (-k).toNat)

/-- The multiple of `10 ^ k` nearest to the number among those in its interval, the greater
one of two that are equally near. -/
def hit? (i : Interval) (k : Int) : Option Nat :=
  let (ten, two) := commonUnits k i.unit
  let inside (n : Nat) : Bool :=
    if i.closed then i.low * two ≤ n && n ≤ i.high * two
    else i.low * two < n && n < i.high * two
  let below := i.mid * two / ten
  let lowHit := inside (below * ten)
  let highHit := inside ((below + 1) * ten)
  let nearerLow := i.mid * two - below * ten < (below + 1) * ten - i.mid * two
  if lowHit && (!highHit || nearerLow) then some below
  else if highHit then some (below + 1)
  else none

/-- The first hit among the next `grids` powers of ten from `k` down. -/
def firstHit (i : Interval) : (grids : Nat) → (k : Int) → Nat × Int
  | 0, k => (i.mid * (commonUnits k i.unit).2 / (commonUnits k i.unit).1, k)
  | grids + 1, k =>
    match hit? i k with
    | some digits => (digits, k)
    | none => firstHit i grids (k - 1)

/-- An exponent of ten above a positive finite number: 30103 / 100000 exceeds the
logarithm of two. -/
def coarseExponent (x : Binary64) : Int :=
  let (m, q) := x.decode
  ((Nat.log2 m : Int) + 1 + q) * 30103 / 100000 + 1

/-- Digits and exponent of ten of the shortest decimal of a positive finite number. -/
def shortest (x : Binary64) : Nat × Int := firstHit x.interval 24 x.coarseExponent

/-- `digits * 10 ^ k` in positional notation. -/
def positional (digits : Nat) (k : Int) : List Char :=
  let ds := Nat.toDigits 10 digits
  if 0 ≤ k then ds ++ List.replicate k.toNat '0'
  else
    let places := (-k).toNat
    let padded := List.replicate (places + 1 - ds.length) '0' ++ ds
    padded.take (padded.length - places) ++ '.' :: padded.drop (padded.length - places)

/-- Positional notation throughout, no point after a whole number; zero keeps its sign,
what is not a number has none. -/
def text (x : Binary64) : String :=
  if x.isNaN then "NaN"
  else
    let sign := if x.isNegative then "-" else ""
    if !x.isFinite then sign ++ "inf"
    else if x.magnitude = 0 then sign ++ "0"
    else
      let (digits, k) := x.shortest
      sign ++ String.ofList (positional digits k)

example : text ⟨0x3FD3333333333334⟩ = "0.30000000000000004" := by decide +kernel

example : text ⟨0x43E0000000000000⟩ = "9223372036854776000" := by decide +kernel

end EntityQuery.Binary64
