import Mathlib.Data.Rat.Floor

/-! Numeric evidence and its clamps. A number is an exact rational, an infinity or not a
number; nothing else about the floating representation is used.
-/

namespace SpeculativeAction

/-- A numeric value as the program can receive one. -/
inductive Number where
  | finite (value : ℚ)
  | infinite (negative : Bool)
  | nan
deriving DecidableEq, Repr

namespace Number

/-- Strict equality: not-a-number equals nothing, itself included. -/
def strictEq : Number → Number → Bool
  | .nan, _ => false
  | left, right => left == right

/-- The largest safe integer, 2^53 - 1. -/
def maxSafeInteger : ℕ := 9007199254740991

def isFiniteNumber : Number → Bool
  | .finite _ => true
  | _ => false

/-- Discrete quantities are accepted only as they are: an integer between zero and the
largest safe integer. The accepted count is returned.
-/
def safeCount? : Number → Option ℕ
  | .finite value =>
      if value.den = 1 ∧ 0 ≤ value.num ∧ value.num ≤ maxSafeInteger then
        some value.num.toNat
      else
        none
  | _ => none

def isSafeCount (value : Number) : Bool := value.safeCount?.isSome

/-- Clamp measured values; non-finite evidence contributes zero. -/
def nonNegativeFinite : Number → ℚ
  | .finite value => max 0 value
  | _ => 0

/-- Clamp and round down discrete values; non-finite evidence contributes zero. -/
def nonNegativeCount : Number → ℕ
  | .finite value => ⌊value⌋.toNat
  | _ => 0

theorem nonNegativeFinite_nonneg (value : Number) : 0 ≤ value.nonNegativeFinite := by
  cases value <;> simp [nonNegativeFinite]

/-- Every accepted count is a safe integer. -/
theorem safeCount?_le {value : Number} {count : ℕ} (accepted : value.safeCount? = some count)
    : count ≤ maxSafeInteger := by
  cases value with
  | finite value =>
      simp only [safeCount?, Option.ite_none_right_eq_some, Option.some.injEq] at accepted
      omega
  | infinite _ => cases accepted
  | nan => cases accepted

end Number

end SpeculativeAction
