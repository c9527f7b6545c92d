/-
Binary64 arithmetic on exact rationals: every operation gives its exact
result rounded to 53 significant bits, ties to even. The exponent is not
bounded, so this is IEEE 754 for values that neither overflow nor fall below
the normal range.
-/
import Mathlib.Data.Int.Log
import Mathlib.Data.Rat.Floor
import Mathlib.Tactic.FieldSimp

namespace Binary64

/-- The nearest integer, the even one of two. -/
def nearestEven (q : ℚ) : ℤ :=
  if Int.fract q < 1 / 2 then ⌊q⌋
  else if 1 / 2 < Int.fract q then ⌊q⌋ + 1
  else if ⌊q⌋ % 2 = 0 then ⌊q⌋
  else ⌊q⌋ + 1

/-- The unit in the last place of a value of `q`'s magnitude. -/
def ulp (q : ℚ) : ℚ := 2 ^ (Int.log 2 |q| - 52)

def round (q : ℚ) : ℚ := if q = 0 then 0 else nearestEven (q / ulp q) * ulp q

def add (a b : ℚ) : ℚ := round (a + b)
def sub (a b : ℚ) : ℚ := round (a - b)
def mul (a b : ℚ) : ℚ := round (a * b)
def div (a b : ℚ) : ℚ := round (a / b)

theorem nearestEven_intCast (z : ℤ) : nearestEven z = z := by
  rw [nearestEven, Int.fract_intCast, if_pos (by norm_num), Int.floor_intCast]

/-- Every natural number below `2 ^ 53` is a binary64 value. -/
theorem round_natCast {n : ℕ} (h : n < 2 ^ 53) : round n = n := by
  by_cases h0 : n = 0
  · simp [round, h0]
  · have hq : (n : ℚ) ≠ 0 := Nat.cast_ne_zero.mpr h0
    -- the last place is at most one, so `n` is a whole number of them
    have hlog : Int.log 2 |(n : ℚ)| = Nat.log 2 n := by rw [Nat.abs_cast, Int.log_natCast]
    have hle : Nat.log 2 n ≤ 52 := Nat.lt_succ_iff.mp (Nat.log_lt_of_lt_pow h0 h)
    have hulp : ulp n = (2 ^ (52 - Nat.log 2 n) : ℚ)⁻¹ := by
      rw [ulp, hlog, ← zpow_natCast, ← zpow_neg]
      congr 1; omega
    have hdiv : (n : ℚ) / ulp n = ((n * 2 ^ (52 - Nat.log 2 n) : ℤ) : ℚ) := by
      rw [hulp]; push_cast; field_simp
    rw [round, if_neg hq, hdiv, nearestEven_intCast, hulp]
    push_cast; field_simp

end Binary64
