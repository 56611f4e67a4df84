import Mathlib.Algebra.Order.Field.Power
import Mathlib.Data.Int.Log
import Mathlib.Data.Rat.Floor
import Mathlib.Tactic.Linarith
import Mathlib.Tactic.Ring

/-! Numbers of the binary64 format as exact rationals: a rational is rounded to the nearest
one of them, and the finite ones are the rationals that rounding keeps.
-/

namespace SpeculativeAction.Library

/-- Round to the nearest integer, a tie to the even one. -/
def roundHalfEven (value : ℚ) : ℤ :=
  let low := ⌊value⌋
  if value - low < 1 / 2 then low
  else if 1 / 2 < value - low then low + 1
  else if low % 2 = 0 then low
  else low + 1

/-- The exponent of the spacing of binary64 numbers around a value. -/
def binary64Exponent (value : ℚ) : ℤ := max (Int.log 2 |value| - 52) (-1074)

/-- Round to the nearest binary64 number; none where that overflows. -/
def roundBinary64 (value : ℚ) : Option ℚ :=
  let spacing : ℚ := 2 ^ binary64Exponent value
  let rounded := roundHalfEven (value / spacing) * spacing
  if |rounded| < 2 ^ 1024 then some rounded else none

section Rounding

@[simp] theorem roundHalfEven_intCast (value : ℤ) : roundHalfEven value = value := by
  simp [roundHalfEven]

/-- Rounding to an integer moves a value by at most one half. -/
theorem abs_roundHalfEven_sub_le (value : ℚ) : |(roundHalfEven value : ℚ) - value| ≤ 1 / 2 := by
  have low := Int.floor_le value
  have high := Int.lt_floor_add_one value
  unfold roundHalfEven
  dsimp only
  split
  · rw [abs_le]
    constructor <;> linarith
  · split
    · push_cast
      rw [abs_le]
      constructor <;> linarith
    · split
      · rw [abs_le]
        constructor <;> linarith
      · push_cast
        rw [abs_le]
        constructor <;> linarith

/-- Rounding does not pass an integer bound. -/
theorem abs_roundHalfEven_le {value : ℚ} {bound : ℕ} (below : |value| < bound)
    : |roundHalfEven value| ≤ bound := by
  have near := abs_roundHalfEven_sub_le value
  rw [abs_lt] at below
  rw [abs_le] at near
  have upper : (roundHalfEven value : ℚ) < bound + 1 := by linarith
  have lower : -(bound : ℚ) - 1 < roundHalfEven value := by linarith
  have upper' : roundHalfEven value < bound + 1 := by exact_mod_cast upper
  have lower' : -(bound : ℤ) - 1 < roundHalfEven value := by exact_mod_cast lower
  rw [abs_le]
  omega

/-- Rounding treats both signs alike. -/
theorem roundHalfEven_neg (value : ℚ) : roundHalfEven (-value) = -roundHalfEven value := by
  by_cases whole : value = ⌊value⌋
  · rw [whole, ← Int.cast_neg, roundHalfEven_intCast, roundHalfEven_intCast]
  · have low : (⌊value⌋ : ℚ) < value := lt_of_le_of_ne (Int.floor_le value) (Ne.symm whole)
    have high := Int.lt_floor_add_one value
    have floor : ⌊-value⌋ = -⌊value⌋ - 1 := by
      rw [Int.floor_eq_iff]
      push_cast
      constructor <;> linarith
    unfold roundHalfEven
    dsimp only
    rw [floor]
    push_cast
    rcases lt_trichotomy (value - ⌊value⌋) (1 / 2) with below | tie | above
    · rw [if_neg (by linarith), if_pos (by linarith), if_pos below]
      ring
    · have mirrored : -value - (-(⌊value⌋ : ℚ) - 1) = 1 / 2 := by linarith
      simp only [tie, mirrored, lt_irrefl, if_false]
      split <;> split <;> omega
    · rw [if_pos (by linarith), if_neg (by linarith), if_pos above]
      ring

theorem binary64Exponent_neg (value : ℚ) : binary64Exponent (-value) = binary64Exponent value := by
  rw [binary64Exponent, abs_neg, binary64Exponent]

theorem roundBinary64_neg (value : ℚ)
    : roundBinary64 (-value) = (roundBinary64 value).map (-·) := by
  unfold roundBinary64
  dsimp only
  rw [binary64Exponent_neg, neg_div, roundHalfEven_neg, Int.cast_neg, neg_mul, abs_neg]
  split <;> rfl

/-- A value below the overflow bound that is a multiple of its own spacing is kept. -/
theorem roundBinary64_multiple {value : ℚ} (multiple : ℤ)
    (exact : value = multiple * 2 ^ binary64Exponent value) (small : |value| < 2 ^ 1024)
    : roundBinary64 value = some value := by
  have quotient : value / 2 ^ binary64Exponent value = multiple := by
    rw [div_eq_iff (by positivity)]
    exact exact
  unfold roundBinary64
  dsimp only
  rw [quotient, roundHalfEven_intCast, ← exact, if_pos small]

/-- A number of at most 53 binary digits, scaled within the range, is representable. -/
theorem roundBinary64_scaled {value : ℚ} {mantissa exponent : ℤ}
    (exact : value = mantissa * 2 ^ exponent) (digits : |mantissa| ≤ 2 ^ 53)
    (least : -1074 ≤ exponent) (small : |value| < 2 ^ 1024)
    : roundBinary64 value = some value := by
  by_cases zero : value = 0
  · exact roundBinary64_multiple 0 (by simp [zero]) small
  by_cases fine : binary64Exponent value ≤ exponent
  · obtain ⟨extra, same⟩ := Int.eq_ofNat_of_zero_le (Int.sub_nonneg.mpr fine)
    apply roundBinary64_multiple (mantissa * 2 ^ extra) _ small
    have split : (2 : ℚ) ^ exponent = 2 ^ extra * 2 ^ binary64Exponent value := by
      rw [← zpow_natCast (2 : ℚ) extra, ← zpow_add₀ two_ne_zero]
      congr 1
      omega
    push_cast
    rw [mul_assoc, ← split]
    exact exact
  · -- only the power of two just above the mantissas is left
    have nonzero : 0 < |value| := abs_pos.mpr zero
    have size : |value| = |mantissa| * 2 ^ exponent := by
      rw [exact, abs_mul, abs_of_pos (zpow_pos (two_pos : (0 : ℚ) < 2) exponent), Int.cast_abs]
    have coarse : exponent + 53 ≤ Int.log 2 |value| := by
      unfold binary64Exponent at fine
      omega
    have wide : (2 : ℚ) ^ (exponent + 53) ≤ |value| :=
      (Int.zpow_le_iff_le_log (by norm_num) nonzero).mpr coarse
    have full : |mantissa| = 2 ^ 53 := by
      apply le_antisymm digits
      rw [size, add_comm, zpow_add₀ two_ne_zero] at wide
      have := le_of_mul_le_mul_right wide (zpow_pos two_pos exponent)
      exact_mod_cast this
    have power : |value| = 2 ^ (exponent + 53) := by
      rw [size, full, add_comm exponent, zpow_add₀ two_ne_zero]
      norm_num
    have log : Int.log 2 |value| = exponent + 53 := by
      have log := Int.log_zpow (R := ℚ) (by norm_num : 1 < 2) (exponent + 53)
      push_cast at log
      rw [power, log]
    have next : binary64Exponent value = exponent + 1 := by
      rw [binary64Exponent, log]
      omega
    have halved : |value| = 2 ^ 52 * 2 ^ binary64Exponent value := by
      rw [next, size, full, zpow_add_one₀ two_ne_zero]
      push_cast
      ring
    rcases abs_choice value with same | same
    · apply roundBinary64_multiple (2 ^ 52) _ small
      exact_mod_cast same.symm.trans halved
    · apply roundBinary64_multiple (-2 ^ 52) _ small
      have negated : value = -(2 ^ 52 * 2 ^ binary64Exponent value) := by
        rw [← halved, same, neg_neg]
      rw [← neg_mul] at negated
      exact_mod_cast negated

/-- A whole number of at most 53 binary digits is kept. -/
theorem roundBinary64_intCast {whole : ℤ} (digits : |whole| ≤ 2 ^ 53)
    : roundBinary64 (whole : ℚ) = some (whole : ℚ) := by
  have unscaled : (whole : ℚ) = whole * 2 ^ (0 : ℤ) := by simp
  refine roundBinary64_scaled unscaled digits (by norm_num) ?_
  have bound : |(whole : ℚ)| ≤ 2 ^ 53 := by exact_mod_cast digits
  exact bound.trans_lt (pow_lt_pow_right₀ (by norm_num) (by norm_num))

theorem roundBinary64_natCast {count : ℕ} (digits : count ≤ 2 ^ 53)
    : roundBinary64 (count : ℚ) = some (count : ℚ) := by
  have whole : |(count : ℤ)| ≤ 2 ^ 53 := by
    rw [Nat.abs_cast]
    exact_mod_cast digits
  exact_mod_cast roundBinary64_intCast whole

/-- Rounding keeps what it returns. -/
theorem roundBinary64_idem {value rounded : ℚ} (found : roundBinary64 value = some rounded)
    : roundBinary64 rounded = some rounded := by
  unfold roundBinary64 at found
  dsimp only at found
  split at found
  · rename_i small
    have same := Option.some.inj found
    rw [same] at small
    apply roundBinary64_scaled same.symm _ (le_max_right _ _) small
    have scaled : |value / 2 ^ binary64Exponent value| < ((2 ^ 53 : ℕ) : ℚ) := by
      have scale : (0 : ℚ) < 2 ^ binary64Exponent value := by positivity
      have below := Int.lt_zpow_succ_log_self (b := 2) (by norm_num) |value|
      have wide : Int.log 2 |value| + 1 ≤ 53 + binary64Exponent value := by
        have := le_max_left (Int.log 2 |value| - 52) (-1074)
        unfold binary64Exponent
        omega
      rw [abs_div, abs_of_pos scale, div_lt_iff₀ scale]
      calc |value| < 2 ^ (Int.log 2 |value| + 1) := by exact_mod_cast below
        _ ≤ 2 ^ (53 + binary64Exponent value) := zpow_le_zpow_right₀ one_le_two wide
        _ = ((2 ^ 53 : ℕ) : ℚ) * 2 ^ binary64Exponent value := by
          rw [zpow_add₀ two_ne_zero]
          norm_num
    exact_mod_cast abs_roundHalfEven_le scaled
  · cases found

end Rounding

/-- A finite binary64 number, either zero counting as zero. -/
structure Binary64 where
  value : ℚ
  representable : roundBinary64 value = some value
deriving DecidableEq

theorem Binary64.ext {left right : Binary64} (same : left.value = right.value)
    : left = right := by
  cases left
  cases right
  congr

/-- Every finite binary64 number is a multiple of the least one. -/
theorem exists_mul_two_pow (number : Binary64)
    : ∃ multiple : ℤ, number.value * 2 ^ 1074 = multiple := by
  have rounded := number.representable
  unfold roundBinary64 at rounded
  dsimp only at rounded
  split at rounded
  · have exact := Option.some.inj rounded
    have wide : 0 ≤ binary64Exponent number.value + 1074 := by
      have := le_max_right (Int.log 2 |number.value| - 52) (-1074)
      unfold binary64Exponent
      omega
    obtain ⟨power, same⟩ := Int.eq_ofNat_of_zero_le wide
    refine ⟨roundHalfEven (number.value / 2 ^ binary64Exponent number.value) * 2 ^ power, ?_⟩
    have spread
        : (2 : ℚ) ^ binary64Exponent number.value * 2 ^ 1074 = 2 ^ power := by
      rw [← zpow_natCast (2 : ℚ) 1074, ← zpow_add₀ two_ne_zero, ← zpow_natCast (2 : ℚ) power]
      congr 1
    nth_rewrite 1 [← exact]
    rw [mul_assoc, spread]
    push_cast
    rfl
  · cases rounded

/-- Zero is a binary64 number. -/
def Binary64.zero : Binary64 := ⟨0, by simp [roundBinary64, roundHalfEven]⟩

def Binary64.neg (number : Binary64) : Binary64 :=
  ⟨-number.value, by rw [roundBinary64_neg, number.representable]; rfl⟩

end SpeculativeAction.Library
