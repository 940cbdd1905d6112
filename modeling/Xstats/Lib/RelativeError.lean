/-
**How far a computation in floating point is from the exact one.**

Two numbers are within `k` roundings of each other if each is at most the other times the `k`-th power of
`drift`, the factor by which one rounding can change a number. Of numbers that are not negative these
distances add up, whether the numbers are multiplied, divided or added.

* `Within.trans`, `Within.mul`, `Within.div`, `Within.add`: the distances along a computation.
* `Rounding.within_round`: a rounding is within one of what it rounds.
* `Rounding.within_scaled`: a count scaled in floating point is within six of the exact one.
* `Within.floor_near`: as integers such numbers are at most one apart, or large.
-/

import Xstats.Lib.Rounding

namespace Rounding

/-- The factor by which one rounding can change a number. -/
def drift : ℚ := 2 ^ 53 / (2 ^ 53 - 1)

theorem one_le_drift : 1 ≤ drift := by
  unfold drift
  norm_num

theorem drift_pow_pos (k : ℕ) : 0 < drift ^ k := pow_pos (zero_lt_one.trans_le one_le_drift) k

/-- Six roundings change a number by less than one in two to the 50. -/
theorem drift_pow_six : drift ^ 6 ≤ 1 + 1 / 2 ^ 50 := by
  unfold drift
  norm_num

/-- The numbers are at most `k` roundings apart. -/
structure Within (k : ℕ) (x y : ℚ) : Prop where
  le : x ≤ y * drift ^ k
  ge : y ≤ x * drift ^ k

namespace Within

variable {j k : ℕ} {x y z u v : ℚ}

theorem refl (x : ℚ) : Within 0 x x := by
  constructor <;> simp

theorem nonneg (near : Within k x y) (left : 0 ≤ x) : 0 ≤ y :=
  (mul_nonneg_iff_of_pos_right (drift_pow_pos k)).mp (left.trans near.le)

theorem trans (first : Within j x y) (second : Within k y z) : Within (j + k) x z where
  le := calc x ≤ y * drift ^ j := first.le
    _ ≤ z * drift ^ k * drift ^ j := mul_le_mul_of_nonneg_right second.le (drift_pow_pos j).le
    _ = z * drift ^ (j + k) := by ring
  ge := calc z ≤ y * drift ^ k := second.ge
    _ ≤ x * drift ^ j * drift ^ k := mul_le_mul_of_nonneg_right first.ge (drift_pow_pos k).le
    _ = x * drift ^ (j + k) := by ring

theorem mono (near : Within j x y) (few : j ≤ k) (left : 0 ≤ x) (right : 0 ≤ y) : Within k x y where
  le := near.le.trans (mul_le_mul_of_nonneg_left (pow_le_pow_right₀ one_le_drift few) right)
  ge := near.ge.trans (mul_le_mul_of_nonneg_left (pow_le_pow_right₀ one_le_drift few) left)

theorem mul (first : Within j x y) (second : Within k u v) (left : 0 ≤ x) (right : 0 ≤ y)
    (leftFactor : 0 ≤ u) (rightFactor : 0 ≤ v) : Within (j + k) (x * u) (y * v) where
  le := calc x * u ≤ y * drift ^ j * (v * drift ^ k) :=
        mul_le_mul first.le second.le leftFactor (mul_nonneg right (drift_pow_pos j).le)
    _ = y * v * drift ^ (j + k) := by ring
  ge := calc y * v ≤ x * drift ^ j * (u * drift ^ k) :=
        mul_le_mul first.ge second.ge rightFactor (mul_nonneg left (drift_pow_pos j).le)
    _ = x * u * drift ^ (j + k) := by ring

theorem inv (near : Within k x y) (left : 0 < x) (right : 0 < y) : Within k x⁻¹ y⁻¹ where
  le := by
    rw [inv_mul_eq_div, le_div_iff₀ right, inv_mul_le_iff₀ left]
    exact near.ge
  ge := by
    rw [inv_mul_eq_div, le_div_iff₀ left, inv_mul_le_iff₀ right]
    exact near.le

theorem div (first : Within j x y) (second : Within k u v) (left : 0 ≤ x) (right : 0 ≤ y)
    (leftDivisor : 0 < u) (rightDivisor : 0 < v) : Within (j + k) (x / u) (y / v) := by
  rw [div_eq_mul_inv, div_eq_mul_inv]
  exact first.mul (second.inv leftDivisor rightDivisor) left right (inv_nonneg.mpr leftDivisor.le)
    (inv_nonneg.mpr rightDivisor.le)

theorem add (first : Within k x y) (second : Within k u v) : Within k (x + u) (y + v) where
  le := (add_le_add first.le second.le).trans_eq (add_mul ..).symm
  ge := (add_le_add first.ge second.ge).trans_eq (add_mul ..).symm

end Within

variable (ρ : Rounding)

theorem within_round {q : ℚ} (nonneg : 0 ≤ q) : Within 1 q (ρ.round q) := by
  obtain ⟨low, high⟩ := abs_le.mp (ρ.near nonneg)
  have divisor : (0 : ℚ) < 2 ^ 53 - 1 := by norm_num
  constructor
  · rw [pow_one, drift, mul_div_assoc', le_div_iff₀ divisor]
    linarith
  · rw [pow_one, drift, mul_div_assoc', le_div_iff₀ divisor]
    linarith

/-- A count scaled in floating point, before it is rounded to an integer. -/
theorem within_scaled {c e r : ℚ} (count : 0 ≤ c) (factor : 0 ≤ e) (divisor : 0 < r) :
    Within 6 (c * e / r + 1 / 2)
      (ρ.round (ρ.round (ρ.round (ρ.round c * ρ.round e) / ρ.round r) + 1 / 2)) := by
  have countRounded := ρ.round_nonneg count
  have factorRounded := ρ.round_nonneg factor
  have divisorRounded := ρ.round_pos divisor
  have productNonneg := mul_nonneg countRounded factorRounded
  have productRounded := ρ.round_nonneg productNonneg
  have quotientNonneg := div_nonneg productRounded divisorRounded.le
  have quotientRounded := ρ.round_nonneg quotientNonneg
  have product : Within 3 (c * e) (ρ.round (ρ.round c * ρ.round e)) :=
    ((ρ.within_round count).mul (ρ.within_round factor) count countRounded factor factorRounded).trans
      (ρ.within_round productNonneg)
  have quotient : Within 5 (c * e / r) (ρ.round (ρ.round (ρ.round c * ρ.round e) / ρ.round r)) :=
    (product.div (ρ.within_round divisor.le) (mul_nonneg count factor) productRounded divisor
      divisorRounded).trans (ρ.within_round quotientNonneg)
  have half : Within 5 (1 / 2) (1 / 2) := (Within.refl _).mono (Nat.zero_le _) (by norm_num) (by norm_num)
  exact (quotient.add half).trans (ρ.within_round (add_nonneg quotientRounded (by norm_num)))

/-- Numbers at most six roundings apart have floors at most one apart, or are large. -/
theorem Within.floor_near {x y : ℚ} (near : Within 6 x y) (left : 0 ≤ x) :
    (⌊y⌋₊ ≤ ⌊x⌋₊ + 1 ∧ ⌊x⌋₊ ≤ ⌊y⌋₊ + 1) ∨ (2 ^ 41 ≤ ⌊x⌋₊ ∧ 2 ^ 41 ≤ ⌊y⌋₊) := by
  have right := near.nonneg left
  have above : y ≤ x + x / 2 ^ 50 := by
    have := near.ge.trans (mul_le_mul_of_nonneg_left drift_pow_six left)
    linarith
  have below : x ≤ y + y / 2 ^ 50 := by
    have := near.le.trans (mul_le_mul_of_nonneg_left drift_pow_six right)
    linarith
  by_cases small : x ≤ 2 ^ 41 + 1
  · left
    constructor
    · rw [← Nat.floor_add_one left]
      exact Nat.floor_le_floor (by linarith)
    · rw [← Nat.floor_add_one right]
      exact Nat.floor_le_floor (by linarith)
  · right
    constructor
    · exact Nat.le_floor (by push_cast; linarith)
    · exact Nat.le_floor (by push_cast; linarith)

end Rounding
