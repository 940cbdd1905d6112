/-
**Rounding to a floating-point format.**

What a program in floating point computes depends on the format its compiler evaluates in. A `Rounding`
is any of them as far as it says: of a number that is not negative it gives one whose relative error is
at most one half of a unit in the 53rd place. Exact arithmetic is one; `binary64` is another, in the
range in which numbers neither overflow nor are subnormal.

* `abs_binary64_sub_le`: the error of binary64.
* `Rounding.scaled_eq`: a count up to two to the 41 is not changed by being multiplied and divided by the
  same number and rounded to the nearest integer.
-/

import Mathlib

/-- A rounding with a relative error of at most one half of a unit in the 53rd place. -/
structure Rounding where
  round : ℚ → ℚ
  near : ∀ {q : ℚ}, 0 ≤ q → |round q - q| ≤ q / 2 ^ 53

namespace Rounding

/-- Exact arithmetic. -/
def exact : Rounding where
  round := id
  near := fun positive => by
    rw [id, sub_self, abs_zero]
    positivity

/-! ### Binary64 -/

/-- The nearest integer, and of two nearest the even one. -/
def halfEven (q : ℚ) : ℤ :=
  if Int.fract q < 1 / 2 then ⌊q⌋
  else if 1 / 2 < Int.fract q then ⌊q⌋ + 1
  else if ⌊q⌋ % 2 = 0 then ⌊q⌋ else ⌊q⌋ + 1

theorem abs_halfEven_sub_le (q : ℚ) : |(halfEven q : ℚ) - q| ≤ 1 / 2 := by
  have parts := Int.floor_add_fract q
  have low := Int.fract_nonneg q
  have high := (Int.fract_lt_one q).le
  unfold halfEven
  split
  · rw [abs_le]
    constructor <;> linarith
  · split
    · rw [abs_le]
      push_cast
      constructor <;> linarith
    · have tie : Int.fract q = 1 / 2 := le_antisymm (not_lt.mp ‹_›) (not_lt.mp ‹_›)
      split
      · rw [abs_le]
        constructor <;> linarith
      · rw [abs_le]
        push_cast
        constructor <;> linarith

/-- The unit in the last place of a significand of 53 bits. -/
def ulp (q : ℚ) : ℚ := 2 ^ (Int.log 2 q - 52)

/-- Rounding to a significand of 53 bits. -/
def roundBinary64 (q : ℚ) : ℚ := halfEven (q / ulp q) * ulp q

theorem ulp_pos (q : ℚ) : 0 < ulp q := zpow_pos (by norm_num) _

theorem ulp_le {q : ℚ} (positive : 0 < q) : ulp q ≤ q / 2 ^ 52 := by
  have log : (2 : ℚ) ^ Int.log 2 q ≤ q := by exact_mod_cast Int.zpow_log_le_self one_lt_two positive
  rw [ulp, zpow_sub₀ two_ne_zero]
  exact div_le_div_of_nonneg_right log (by norm_num)

theorem abs_binary64_sub_le {q : ℚ} (nonneg : 0 ≤ q) : |roundBinary64 q - q| ≤ q / 2 ^ 53 := by
  rcases nonneg.eq_or_lt with rfl | positive
  · simp [roundBinary64, halfEven]
  · have unit := ulp_pos q
    have scaled : roundBinary64 q - q = ((halfEven (q / ulp q) : ℚ) - q / ulp q) * ulp q := by
      rw [roundBinary64, sub_mul, div_mul_cancel₀ q unit.ne']
    calc |roundBinary64 q - q|
        = |(halfEven (q / ulp q) : ℚ) - q / ulp q| * ulp q := by
          rw [scaled, abs_mul, abs_of_pos unit]
      _ ≤ 1 / 2 * (q / 2 ^ 52) :=
          mul_le_mul (abs_halfEven_sub_le _) (ulp_le positive) unit.le (by norm_num)
      _ = q / 2 ^ 53 := by ring

/-- Binary64, away from its ends. -/
def binary64 : Rounding := ⟨roundBinary64, abs_binary64_sub_le⟩

/-! ### Scaled counts -/

variable (ρ : Rounding)

theorem round_nonneg {q : ℚ} (nonneg : 0 ≤ q) : 0 ≤ ρ.round q := by
  have close := (abs_le.mp (ρ.near nonneg)).1
  have small : q / 2 ^ 53 ≤ q := div_le_self nonneg (by norm_num)
  linarith

theorem round_pos {q : ℚ} (positive : 0 < q) : 0 < ρ.round q := by
  have close := (abs_le.mp (ρ.near positive.le)).1
  have small : q / 2 ^ 53 < q := div_lt_self positive (by norm_num)
  linarith

/-- Up to somewhat more than two to the 41 the error is below an eighth. -/
theorem abs_round_sub_lt {q : ℚ} (nonneg : 0 ≤ q) (small : q ≤ 2 ^ 41 + 1) :
    |ρ.round q - q| < 1 / 8 := by
  have step : q / 2 ^ 53 ≤ (2 ^ 41 + 1) / 2 ^ 53 := by gcongr
  exact ((ρ.near nonneg).trans step).trans_lt (by norm_num)

/-- **A count scaled by one** is the count, whatever the arithmetic. -/
theorem scaled_eq {n : ℕ} (small : n ≤ 2 ^ 41) {d : ℚ} (positive : 0 < d) :
    ⌊ρ.round (ρ.round (ρ.round (ρ.round n * ρ.round d) / ρ.round d) + 1 / 2)⌋₊ = n := by
  have bound : (n : ℚ) ≤ 2 ^ 41 := by exact_mod_cast small
  have divisor := ρ.round_pos positive
  have count := abs_lt.mp (ρ.abs_round_sub_lt n.cast_nonneg (by linarith))
  have countNonneg := ρ.round_nonneg n.cast_nonneg
  set product := ρ.round (ρ.round n * ρ.round d)
  -- the relative error of the product is what the division leaves of it
  have ratio : |product / ρ.round d - ρ.round n| < 1 / 8 := by
    have close := ρ.near (mul_nonneg countNonneg divisor.le)
    have step : product / ρ.round d - ρ.round n =
        (product - ρ.round n * ρ.round d) / ρ.round d := by
      field_simp
    rw [step, abs_div, abs_of_pos divisor, div_lt_iff₀ divisor]
    refine close.trans_lt ?_
    rw [mul_div_right_comm]
    refine mul_lt_mul_of_pos_right ?_ divisor
    have limit : ρ.round n ≤ 2 ^ 41 + 1 := by linarith [count.2]
    have scaled : ρ.round n / 2 ^ 53 ≤ (2 ^ 41 + 1) / 2 ^ 53 := by gcongr
    exact scaled.trans_lt (by norm_num)
  have ratio := abs_lt.mp ratio
  have ratioNonneg : 0 ≤ product / ρ.round d :=
    div_nonneg (ρ.round_nonneg (mul_nonneg countNonneg divisor.le)) divisor.le
  have quotient := abs_lt.mp (ρ.abs_round_sub_lt ratioNonneg (by linarith [count.2, ratio.2]))
  have quotientNonneg := ρ.round_nonneg ratioNonneg
  have sum := abs_lt.mp (ρ.abs_round_sub_lt (q := ρ.round (product / ρ.round d) + 1 / 2)
    (by linarith) (by linarith [count.2, ratio.2, quotient.2]))
  rw [Nat.floor_eq_iff (ρ.round_nonneg (by linarith))]
  constructor <;> linarith [count.1, count.2, ratio.1, ratio.2, quotient.1, quotient.2, sum.1, sum.2]

end Rounding
