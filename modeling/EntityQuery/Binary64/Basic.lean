/-! Binary64 floating-point numbers as bit patterns: 1 bit of sign, 11 of exponent, 52 of
fraction. Nothing here computes with them; they are read, rounded, ordered and written. -/
namespace EntityQuery

structure Binary64 where
  bits : UInt64
deriving DecidableEq, Inhabited

namespace Binary64

def twoTo (k : Nat) : Nat := Nat.pow 2 k

def tenTo (k : Nat) : Nat := Nat.pow 10 k

/-- The pattern without its sign. -/
def magnitude (x : Binary64) : Nat := x.bits.toNat % twoTo 63

def isNegative (x : Binary64) : Bool := twoTo 63 ≤ x.bits.toNat

/-- The pattern of infinity; a greater magnitude is not a number. -/
def infiniteMagnitude : Nat := 2047 * twoTo 52

def isFinite (x : Binary64) : Bool := x.magnitude < infiniteMagnitude

def isNaN (x : Binary64) : Bool := infiniteMagnitude < x.magnitude

def ofMagnitude (negative : Bool) (n : Nat) : Binary64 :=
  ⟨UInt64.ofNat (if negative then twoTo 63 + n else n)⟩

def infinity (negative : Bool) : Binary64 := ofMagnitude negative infiniteMagnitude

def notANumber (negative : Bool) : Binary64 := ofMagnitude negative (infiniteMagnitude + twoTo 51)

/-- `m` and `q` with the value `m * 2 ^ q`, for a finite number without its sign. -/
def decode (x : Binary64) : Nat × Int :=
  let exponent : Nat := x.magnitude / twoTo 52
  let fraction : Nat := x.magnitude % twoTo 52
  if exponent = 0 then (fraction, -1074) else (twoTo 52 + fraction, (exponent : Int) - 1075)

/-- Numeric equality: the two zeros are equal, and what is not a number equals nothing. -/
def sameNumber (x y : Binary64) : Bool :=
  !x.isNaN && !y.isNaN && (x.bits == y.bits || (x.magnitude == 0 && y.magnitude == 0))

/-- The place of a pattern in the total order of all patterns: negative ones first, from
the greatest magnitude down, then the positive ones from zero up. -/
def rank (x : Binary64) : Int :=
  if x.isNegative then -(x.magnitude : Int) - 1 else x.magnitude

def compare (x y : Binary64) : Ordering := Ord.compare x.rank y.rank

/-- The number without its fraction, cut to the integers of 64 bits. -/
def truncate (x : Binary64) : Int64 :=
  let (m, q) := x.decode
  let whole := if 0 ≤ q then m * twoTo q.toNat else m / twoTo (-q).toNat
  let n : Int := if x.isNegative then -(whole : Int) else whole
  Int64.ofInt (max Int64.minValue.toInt (min Int64.maxValue.toInt n))

/-- The integer part of a finite number as an integer of 64 bits. -/
def toInt64? (x : Binary64) : Option Int64 := if x.isFinite then some x.truncate else none

end Binary64

end EntityQuery
