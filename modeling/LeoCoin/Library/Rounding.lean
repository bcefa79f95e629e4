import Mathlib.Data.Int.Log
import Mathlib.Data.Rat.Floor
import Mathlib.Tactic.Linarith
import Mathlib.Tactic.Positivity

/-! # Rounding to a number of significant bits

Floating point numbers without the limits of their exponents: `roundTo` gives the nearest
number with so many significant bits, and the one with an even last bit in the middle
between two.  Integers that need no more bits are kept, and nothing is rounded across one.
-/

namespace Library.Rounding

/-- The nearest integer, and the even one in the middle between two. -/
def roundEven (x : ℚ) : ℤ :=
  let below := ⌊x⌋
  if x - below < 1 / 2 ∨ (x - below = 1 / 2 ∧ below % 2 = 0) then below else below + 1

/-- The nearest number with `precision` significant bits. -/
def roundTo (precision : ℕ) (x : ℚ) : ℚ :=
  let ulp : ℚ := 2 ^ (Int.log 2 |x| + 1 - precision)
  roundEven (x / ulp) * ulp

/-! ## Integers -/

section Integers

variable {x : ℚ} {n : ℤ}

theorem le_roundEven (bound : n ≤ x) : n ≤ roundEven x := by
  have floor := Int.le_floor.mpr bound
  rw [roundEven]
  split <;> omega

theorem roundEven_le (bound : x ≤ n) : roundEven x ≤ n := by
  rw [roundEven]
  cases eq_or_lt_of_le bound with
  | inl whole =>
    subst whole
    simp
  | inr inside =>
    have floor : ⌊x⌋ < n := Int.floor_lt.mpr inside
    split <;> omega

theorem roundEven_error (x : ℚ) : |(roundEven x : ℚ) - x| ≤ 1 / 2 := by
  have below := Int.floor_le x
  have above := Int.lt_floor_add_one x
  rw [roundEven, abs_le]
  split
  next down =>
    have near : x - ⌊x⌋ ≤ 1 / 2 := by
      cases down with
      | inl less => exact le_of_lt less
      | inr middle => exact le_of_eq middle.1
    exact ⟨by linarith, by linarith⟩
  next up =>
    have far : 1 / 2 ≤ x - ⌊x⌋ := not_lt.mp fun less => up (.inl less)
    push_cast
    exact ⟨by linarith, by linarith⟩

end Integers

/-! ## Significant bits -/

section Bits

variable {precision : ℕ} {x : ℚ}

theorem ulp_pos (exponent : ℤ) : (0 : ℚ) < 2 ^ exponent := zpow_pos two_pos exponent

/-- The error is at most half a unit in the last place. -/
theorem roundTo_error (precision : ℕ) {x : ℚ} (positive : 0 < x) :
    |roundTo precision x - x| ≤ x / 2 ^ precision := by
  have magnitude : (2 : ℚ) ^ Int.log 2 x ≤ x := by exact_mod_cast Int.zpow_log_le_self one_lt_two positive
  rw [roundTo, abs_of_pos positive]
  generalize bits : Int.log 2 x + 1 - precision = exponent
  have ulp := ulp_pos exponent
  have error := roundEven_error (x / 2 ^ exponent)
  have scaled : (roundEven (x / 2 ^ exponent) : ℚ) * 2 ^ exponent - x =
      ((roundEven (x / 2 ^ exponent) : ℚ) - x / 2 ^ exponent) * 2 ^ exponent := by
    rw [sub_mul, div_mul_cancel₀ x (ne_of_gt ulp)]
  have unit : (2 : ℚ) ^ exponent / 2 = 2 ^ Int.log 2 x / 2 ^ precision := by
    rw [← bits, zpow_sub₀ two_ne_zero, zpow_add_one₀ two_ne_zero, zpow_natCast]
    ring
  rw [scaled, abs_mul, abs_of_pos ulp]
  calc |(roundEven (x / 2 ^ exponent) : ℚ) - x / 2 ^ exponent| * 2 ^ exponent
      ≤ 1 / 2 * 2 ^ exponent := mul_le_mul_of_nonneg_right error (le_of_lt ulp)
    _ = 2 ^ Int.log 2 x / 2 ^ precision := by rw [← unit]; ring
    _ ≤ x / 2 ^ precision := by gcongr

theorem roundTo_nonneg (precision : ℕ) {x : ℚ} (nonneg : 0 ≤ x) : 0 ≤ roundTo precision x := by
  rw [roundTo]
  generalize Int.log 2 |x| + 1 - precision = exponent
  have ulp := ulp_pos exponent
  have rounded : ((0 : ℤ) : ℚ) ≤ roundEven (x / 2 ^ exponent) := by
    exact_mod_cast le_roundEven (n := 0) (by simpa using div_nonneg nonneg (le_of_lt ulp))
  exact mul_nonneg (by simpa using rounded) (le_of_lt ulp)

theorem roundTo_nonpos (precision : ℕ) {x : ℚ} (nonpos : x ≤ 0) : roundTo precision x ≤ 0 := by
  rw [roundTo]
  generalize Int.log 2 |x| + 1 - precision = exponent
  have ulp := ulp_pos exponent
  have rounded : (roundEven (x / 2 ^ exponent) : ℚ) ≤ (0 : ℤ) := by
    exact_mod_cast roundEven_le (n := 0) (by simpa using div_nonpos_of_nonpos_of_nonneg nonpos (le_of_lt ulp))
  exact mul_nonpos_of_nonpos_of_nonneg (by simpa using rounded) (le_of_lt ulp)

/-- Below one, the unit in the last place divides every integer. -/
theorem multiple_of_ulp (bound : ℕ) {exponent : ℤ} (fine : exponent ≤ 0) :
    ((bound * 2 ^ (-exponent).toNat : ℕ) : ℚ) * 2 ^ exponent = bound := by
  obtain ⟨shift, rfl⟩ : ∃ shift : ℕ, exponent = -shift := ⟨(-exponent).toNat, by omega⟩
  rw [neg_neg, Int.toNat_natCast, zpow_neg, zpow_natCast]
  push_cast
  rw [mul_assoc, mul_inv_cancel₀ (pow_ne_zero shift two_ne_zero), mul_one]

/-- From one on, the last bit counts at least two, and the first one the whole of `2 ^ precision`. -/
theorem coarse_bounds {exponent : ℤ} (enough : 0 < precision) (positive : 0 < x)
    (bits : Int.log 2 x + 1 - precision = exponent) (coarse : ¬ exponent ≤ 0) :
    (2 : ℚ) ^ precision ≤ ((2 ^ (precision - 1) : ℕ) : ℚ) * 2 ^ exponent ∧
      ((2 ^ (precision - 1) : ℕ) : ℚ) * 2 ^ exponent ≤ x := by
  have magnitude : (2 : ℚ) ^ Int.log 2 x ≤ x := by exact_mod_cast Int.zpow_log_le_self one_lt_two positive
  have together : ((2 ^ (precision - 1) : ℕ) : ℚ) * 2 ^ exponent = 2 ^ Int.log 2 x := by
    push_cast
    rw [← zpow_natCast, ← zpow_add₀ two_ne_zero]
    congr 1
    omega
  rw [together, ← zpow_natCast]
  exact ⟨zpow_le_zpow_right₀ one_le_two (by omega), magnitude⟩

/-- Nothing is rounded down across an integer that has no more bits. -/
theorem le_roundTo {bound : ℕ} (enough : 0 < precision) (few : bound ≤ 2 ^ precision) (positive : 0 < x)
    (reaches : bound ≤ x) : (bound : ℚ) ≤ roundTo precision x := by
  rw [roundTo, abs_of_pos positive]
  generalize bits : Int.log 2 x + 1 - precision = exponent
  have ulp := ulp_pos exponent
  by_cases fine : exponent ≤ 0
  · rw [← multiple_of_ulp bound fine] at reaches ⊢
    have rounded := le_roundEven (n := (bound * 2 ^ (-exponent).toNat : ℕ)) (x := x / 2 ^ exponent)
      (by rw [le_div_iff₀ ulp]; exact_mod_cast reaches)
    exact mul_le_mul_of_nonneg_right (by exact_mod_cast rounded) (le_of_lt ulp)
  · obtain ⟨least, most⟩ := coarse_bounds enough positive bits fine
    have rounded := le_roundEven (n := (2 ^ (precision - 1) : ℕ)) (x := x / 2 ^ exponent)
      (by rw [le_div_iff₀ ulp]; exact_mod_cast most)
    calc (bound : ℚ) ≤ 2 ^ precision := by exact_mod_cast few
      _ ≤ ((2 ^ (precision - 1) : ℕ) : ℚ) * 2 ^ exponent := least
      _ ≤ roundEven (x / 2 ^ exponent) * 2 ^ exponent :=
        mul_le_mul_of_nonneg_right (by exact_mod_cast rounded) (le_of_lt ulp)

theorem roundTo_le {bound : ℕ} (enough : 0 < precision) (few : bound ≤ 2 ^ precision) (positive : 0 < x)
    (reaches : x ≤ bound) : roundTo precision x ≤ bound := by
  rw [roundTo, abs_of_pos positive]
  generalize bits : Int.log 2 x + 1 - precision = exponent
  have ulp := ulp_pos exponent
  by_cases fine : exponent ≤ 0
  · rw [← multiple_of_ulp bound fine] at reaches ⊢
    have rounded := roundEven_le (n := (bound * 2 ^ (-exponent).toNat : ℕ)) (x := x / 2 ^ exponent)
      (by rw [div_le_iff₀ ulp]; exact_mod_cast reaches)
    exact mul_le_mul_of_nonneg_right (by exact_mod_cast rounded) (le_of_lt ulp)
  · obtain ⟨least, most⟩ := coarse_bounds enough positive bits fine
    have below : x ≤ ((2 ^ (precision - 1) : ℕ) : ℚ) * 2 ^ exponent :=
      reaches.trans ((show (bound : ℚ) ≤ 2 ^ precision by exact_mod_cast few).trans least)
    have rounded := roundEven_le (n := (2 ^ (precision - 1) : ℕ)) (x := x / 2 ^ exponent)
      (by rw [div_le_iff₀ ulp]; exact_mod_cast below)
    calc (roundEven (x / 2 ^ exponent) : ℚ) * 2 ^ exponent
        ≤ ((2 ^ (precision - 1) : ℕ) : ℚ) * 2 ^ exponent :=
          mul_le_mul_of_nonneg_right (by exact_mod_cast rounded) (le_of_lt ulp)
      _ ≤ x := most
      _ ≤ bound := reaches

theorem roundTo_natCast {n : ℕ} (enough : 0 < precision) (few : n ≤ 2 ^ precision) : roundTo precision n = n := by
  cases Nat.eq_zero_or_pos n with
  | inl zero =>
    subst zero
    simp [roundTo, roundEven]
  | inr positive =>
    have positive : (0 : ℚ) < n := by exact_mod_cast positive
    exact le_antisymm (roundTo_le enough few positive (le_refl _)) (le_roundTo enough few positive (le_refl _))

end Bits

end Library.Rounding
