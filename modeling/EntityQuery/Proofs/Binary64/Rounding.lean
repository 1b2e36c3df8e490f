import EntityQuery.Binary64.Rounding
import Mathlib.Order.Lattice

/-!
# Rounding integers

The patterns of the numbers nearest to whole numbers grow with these: rounding keeps the order of
integers, but not their differences.
-/

namespace EntityQuery.Binary64

/-! Powers of two. -/

theorem twoTo_pos (k : Nat) : 0 < twoTo k := Nat.two_pow_pos k

theorem twoTo_succ (k : Nat) : twoTo (k + 1) = 2 * twoTo k := by
  rw [Nat.mul_comm]
  rfl

theorem twoTo_add (j k : Nat) : twoTo (j + k) = twoTo j * twoTo k := Nat.pow_add 2 j k

theorem twoTo_log2_le {n : Nat} (h : n ≠ 0) : twoTo n.log2 ≤ n := Nat.log2_self_le h

theorem lt_twoTo_log2 (n : Nat) : n < twoTo (n.log2 + 1) := Nat.lt_log2_self

/-! Rounded quotients. -/

variable {a b d k m n : Nat}

theorem roundQuotient_mono (h : a ≤ b) : roundQuotient a d ≤ roundQuotient b d := by
  have quotients : a / d ≤ b / d := Nat.div_le_div_right h
  have rests : a / d = b / d → a % d ≤ b % d := by
    intro same
    have ha := Nat.div_add_mod a d
    have hb := Nat.div_add_mod b d
    rw [same] at ha
    omega
  unfold roundQuotient
  dsimp only
  generalize a / d = p, b / d = q, a % d = r, b % d = s at *
  split_ifs <;> omega

theorem roundQuotient_mul_right (k : Nat) (h : 0 < d) : roundQuotient (k * d) d = k := by
  rw [roundQuotient, Nat.mul_div_cancel k h, Nat.mul_mod_left]
  exact if_pos h

/-- A quotient does not change with a factor of both its terms. -/
theorem roundQuotient_mul (h : 0 < k) : roundQuotient (k * a) (k * d) = roundQuotient a d := by
  unfold roundQuotient
  rw [Nat.mul_div_mul_left a d h, Nat.mul_mod_mul_left]
  have double : 2 * (k * (a % d)) = k * (2 * (a % d)) := Nat.mul_left_comm 2 k (a % d)
  simp only [double, Nat.mul_lt_mul_left h]

/-! Patterns. -/

/-- The pattern of the number nearest to `n`, if the exponents had no end: behind the patterns for
the smaller powers of two comes one for each value of the significant bits. -/
def pattern (n : Nat) : Nat :=
  if n = 0 then 0
  else (n.log2 + 1022) * twoTo 52 + roundQuotient (n * twoTo 52) (twoTo n.log2)

theorem unitExponent_one (h : n ≠ 0) : unitExponent n 1 = (n.log2 : Int) - 52 := by
  have power := twoTo_log2_le h
  have one : Nat.log2 1 = 0 := rfl
  simp only [unitExponent, one, Nat.one_mul]
  rcases Nat.lt_or_ge n.log2 52 with small | large
  · obtain ⟨k, hk⟩ := Nat.exists_eq_add_of_lt small
    have guess : (n.log2 : Int) - (0 : Nat) - 52 = -((k + 1 : Nat) : Int) := by omega
    have negative : ¬ 0 ≤ -((k + 1 : Nat) : Int) := by omega
    have fits : twoTo 52 ≤ n * twoTo (k + 1) := by
      rw [hk, Nat.add_assoc, twoTo_add]
      exact Nat.mul_le_mul_right _ power
    simp only [guess, negative, ↓reduceIte, Int.neg_neg, Int.toNat_natCast, fits]
    omega
  · obtain ⟨k, hk⟩ := Nat.exists_eq_add_of_le' large
    have guess : (n.log2 : Int) - (0 : Nat) - 52 = k := by omega
    have fits : twoTo k * twoTo 52 ≤ n := by rwa [← twoTo_add, ← hk]
    simp only [guess, Int.natCast_nonneg, ↓reduceIte, Int.toNat_natCast, fits]
    omega

theorem scaleQuotient_one (n : Nat) :
    scaleQuotient n 1 ((n.log2 : Int) - 52) =
      roundQuotient (n * twoTo 52) (twoTo n.log2) := by
  rw [scaleQuotient]
  rcases Nat.lt_or_ge n.log2 52 with small | large
  · obtain ⟨k, hk⟩ := Nat.exists_eq_add_of_lt small
    have unit : (n.log2 : Int) - 52 = -((k + 1 : Nat) : Int) := by omega
    have factor : n * twoTo 52 = twoTo n.log2 * (n * twoTo (k + 1)) := by
      rw [hk, Nat.add_assoc, twoTo_add, Nat.mul_left_comm]
    have same := roundQuotient_mul (a := n * twoTo (k + 1)) (d := 1) (twoTo_pos n.log2)
    rw [Nat.mul_one, ← factor] at same
    rw [unit, if_neg (by omega), Int.neg_neg, Int.toNat_natCast, same]
  · obtain ⟨k, hk⟩ := Nat.exists_eq_add_of_le' large
    have unit : (n.log2 : Int) - 52 = k := by omega
    rw [unit, if_pos (Int.natCast_nonneg k), Int.toNat_natCast, Nat.one_mul, hk, twoTo_add,
      Nat.mul_comm n, Nat.mul_comm (twoTo k), roundQuotient_mul (twoTo_pos 52)]

theorem ofQuotient_one (negative : Bool) (n : Nat) :
    ofQuotient negative n 1 = ofMagnitude negative (min (pattern n) infiniteMagnitude) := by
  rw [ofQuotient, pattern]
  by_cases h : n = 0
  · rw [if_pos h, if_pos h]
    rfl
  · rw [if_neg h, if_neg h, unitExponent_one h]
    dsimp only
    rw [scaleQuotient_one]
    have exponents : (n.log2 : Int) - 52 + 1074 = (n.log2 + 1022 : Nat) := by omega
    rw [exponents, ← Int.natCast_mul, ← Int.natCast_add, Int.toNat_natCast]
    split
    · rename_i beyond
      rw [Nat.min_eq_right (Int.ofNat_le.mp beyond), infinity]
    · rename_i within
      rw [Nat.min_eq_left (Nat.le_of_not_le fun beyond => within (Int.ofNat_le.mpr beyond))]

/-- A carry out of the significant bits leads to the first pattern of the next power of two. -/
theorem pattern_bounds (h : n ≠ 0) :
    (n.log2 + 1023) * twoTo 52 ≤ pattern n ∧ pattern n ≤ (n.log2 + 1024) * twoTo 52 := by
  have lower : roundQuotient (twoTo 52 * twoTo n.log2) (twoTo n.log2) ≤
      roundQuotient (n * twoTo 52) (twoTo n.log2) := by
    refine roundQuotient_mono ?_
    rw [Nat.mul_comm]
    exact Nat.mul_le_mul_right _ (twoTo_log2_le h)
  have upper : roundQuotient (n * twoTo 52) (twoTo n.log2) ≤
      roundQuotient (2 * twoTo 52 * twoTo n.log2) (twoTo n.log2) := by
    refine roundQuotient_mono ?_
    rw [Nat.mul_right_comm, ← twoTo_succ]
    exact Nat.mul_le_mul_right _ (Nat.le_of_lt (lt_twoTo_log2 n))
  rw [roundQuotient_mul_right _ (twoTo_pos _)] at lower upper
  rw [pattern, if_neg h, Nat.succ_mul (n.log2 + 1023), Nat.succ_mul (n.log2 + 1022)]
  omega

theorem log2_mono (h : m ≤ n) (hm : m ≠ 0) : m.log2 ≤ n.log2 :=
  (Nat.le_log2 (by omega)).mpr (Nat.le_trans (Nat.log2_self_le hm) h)

/-- Numbers between the same powers of two have their significant bits compared, others their
powers of two. -/
theorem pattern_mono (h : m ≤ n) : pattern m ≤ pattern n := by
  by_cases hm : m = 0
  · rw [pattern, if_pos hm]
    exact Nat.zero_le _
  have hn : n ≠ 0 := by omega
  rcases Nat.eq_or_lt_of_le (log2_mono h hm) with same | less
  · rw [pattern, pattern, if_neg hm, if_neg hn, same]
    exact Nat.add_le_add_left (roundQuotient_mono (Nat.mul_le_mul_right _ h)) _
  · calc pattern m ≤ (m.log2 + 1024) * twoTo 52 := (pattern_bounds hm).2
      _ ≤ (n.log2 + 1023) * twoTo 52 := Nat.mul_le_mul_right _ (by omega)
      _ ≤ pattern n := (pattern_bounds hn).1

/-! Numbers of 53 bits, all of which are significant. -/

theorem log2_le_of_lt (h : n < twoTo 53) (hn : n ≠ 0) : n.log2 ≤ 52 :=
  Nat.lt_succ_iff.mp ((Nat.log2_lt hn).mpr h)

theorem pattern_of_exact (h : n.log2 + k = 52) (hn : n ≠ 0) :
    pattern n = (n.log2 + 1022) * twoTo 52 + n * twoTo k := by
  have factor : n * twoTo 52 = n * twoTo k * twoTo n.log2 := by
    rw [← h, twoTo_add, Nat.mul_assoc, Nat.mul_comm (twoTo k)]
  rw [pattern, if_neg hn, factor, roundQuotient_mul_right _ (twoTo_pos _)]

theorem pattern_lt_of_lt (h : m < n) (hn : n ≤ twoTo 53) : pattern m < pattern n := by
  have hn0 : n ≠ 0 := by omega
  by_cases hm : m = 0
  · rw [pattern, if_pos hm]
    exact Nat.lt_of_lt_of_le (Nat.mul_pos (by omega) (twoTo_pos 52)) (pattern_bounds hn0).1
  obtain ⟨k, hk⟩ := Nat.le.dest (log2_le_of_lt (Nat.lt_of_lt_of_le h hn) hm)
  rw [pattern_of_exact hk hm]
  rcases Nat.eq_or_lt_of_le (log2_mono (Nat.le_of_lt h) hm) with same | less
  · rw [pattern_of_exact (same ▸ hk) hn0, same]
    exact Nat.add_lt_add_left (Nat.mul_lt_mul_of_pos_right h (twoTo_pos k)) _
  · have significant : m * twoTo k < twoTo 52 + twoTo 52 :=
      calc m * twoTo k < twoTo (m.log2 + 1) * twoTo k :=
            Nat.mul_lt_mul_of_pos_right (lt_twoTo_log2 m) (twoTo_pos k)
        _ = twoTo 52 + twoTo 52 := by rw [← twoTo_add, Nat.add_right_comm, hk]; rfl
    calc (m.log2 + 1022) * twoTo 52 + m * twoTo k < (m.log2 + 1024) * twoTo 52 := by
          rw [Nat.succ_mul (m.log2 + 1023), Nat.succ_mul (m.log2 + 1022)]
          omega
      _ ≤ (n.log2 + 1023) * twoTo 52 := Nat.mul_le_mul_right _ (by omega)
      _ ≤ pattern n := (pattern_bounds hn0).1

theorem pattern_lt_infinite (h : n ≤ twoTo 53) : pattern n < infiniteMagnitude := by
  by_cases hn : n = 0
  · rw [pattern, if_pos hn]
    decide
  · have power : n.log2 < 54 := (Nat.log2_lt hn).mpr (Nat.lt_of_le_of_lt h (by decide))
    calc pattern n ≤ (n.log2 + 1024) * twoTo 52 := (pattern_bounds hn).2
      _ ≤ 1077 * twoTo 52 := Nat.mul_le_mul_right _ (by omega)
      _ < infiniteMagnitude := by decide

/-! Ranks. -/

theorem eq_of_rank_eq {x y : Binary64} (h : x.rank = y.rank) : x = y := by
  have hx := x.bits.toNat_lt
  have hy := y.bits.toNat_lt
  have sign : twoTo 63 = 9223372036854775808 := rfl
  have patterns : x.bits.toNat = y.bits.toNat := by
    simp only [rank, isNegative, magnitude, sign, decide_eq_true_eq] at h
    split_ifs at h <;> omega
  cases x
  cases y
  exact congrArg Binary64.mk (UInt64.toNat_inj.mp patterns)

instance : Std.TransCmp compare where
  eq_swap {x _} := Std.OrientedOrd.eq_swap (a := x.rank)
  isLE_trans {x _ _} := Std.TransOrd.isLE_trans (a := x.rank)

theorem compare_swap (x y : Binary64) : x.compare y = (y.compare x).swap :=
  Std.OrientedCmp.eq_swap

theorem toNat_ofMagnitude (negative : Bool) (h : n ≤ infiniteMagnitude) :
    (ofMagnitude negative n).bits.toNat = if negative then twoTo 63 + n else n := by
  have small : infiniteMagnitude < 2 ^ 63 := by decide
  have sign : twoTo 63 = 2 ^ 63 := rfl
  rw [ofMagnitude]
  exact UInt64.toNat_ofNat_of_lt' (by split <;> simp only [UInt64.size] <;> omega)

theorem rank_ofMagnitude (negative : Bool) (h : n ≤ infiniteMagnitude) :
    (ofMagnitude negative n).rank = if negative then -(n : Int) - 1 else n := by
  have small : n < twoTo 63 := Nat.lt_of_le_of_lt h (by decide)
  rw [rank, isNegative, magnitude, toNat_ofMagnitude negative h]
  cases negative with
  | true => simp [Nat.mod_eq_of_lt small]
  | false => simp [Nat.mod_eq_of_lt small, small]

/-- The place of the number nearest to an integer. -/
theorem rank_ofInt (n : Int) : (ofInt n).rank =
    if n < 0 then -((min (pattern n.natAbs) infiniteMagnitude : Nat) : Int) - 1
    else (min (pattern n.natAbs) infiniteMagnitude : Nat) := by
  rw [ofInt, ofQuotient_one, rank_ofMagnitude _ (Nat.min_le_right _ _)]
  simp only [decide_eq_true_eq]

theorem rank_ofInt_mono {m n : Int} (h : m ≤ n) : (ofInt m).rank ≤ (ofInt n).rank := by
  rw [rank_ofInt, rank_ofInt]
  split_ifs with hm hn
  · have patterns : pattern n.natAbs ≤ pattern m.natAbs := pattern_mono (by omega)
    omega
  · omega
  · omega
  · have patterns : pattern m.natAbs ≤ pattern n.natAbs := pattern_mono (by omega)
    omega

theorem rank_ofInt_lt {m n : Int} (h : m < n) (hm : m.natAbs ≤ twoTo 53)
    (hn : n.natAbs ≤ twoTo 53) : (ofInt m).rank < (ofInt n).rank := by
  have finiteM := pattern_lt_infinite hm
  have finiteN := pattern_lt_infinite hn
  rw [rank_ofInt, rank_ofInt]
  split_ifs with negM negN
  · have patterns : pattern n.natAbs < pattern m.natAbs := pattern_lt_of_lt (by omega) hm
    omega
  · omega
  · omega
  · have patterns : pattern m.natAbs < pattern n.natAbs := pattern_lt_of_lt (by omega) hn
    omega

/-- Integers of up to 53 bits, and the next power of two, are rounded to different numbers. -/
theorem eq_of_ofInt_eq {m n : Int} (hm : m.natAbs ≤ twoTo 53) (hn : n.natAbs ≤ twoTo 53)
    (h : ofInt m = ofInt n) : m = n := by
  have ranks := congrArg rank h
  rcases Int.lt_trichotomy m n with less | same | greater
  · have := rank_ofInt_lt less hm hn
    omega
  · exact same
  · have := rank_ofInt_lt greater hn hm
    omega

end EntityQuery.Binary64
