import Mathlib.Data.ENat.Basic
import SpeculativeAction.Library.NumberSums

/-! Sums of counts as the host adds them: a sum is rounded to a binary64 number, and one that
overflows is unbounded. Rounding keeps the order of counts and, below 2^53, the counts themselves.
-/

namespace SpeculativeAction.Library

/-- The binary64 number nearest to a count. -/
def roundCount (count : ℕ) : ℕ∞ :=
  match roundBinary64 count with
  | some rounded => (⌊rounded⌋.toNat : ℕ)
  | none => ⊤

/-- The sum of a number and a count, rounded. -/
def addCounts : ℕ∞ → ℕ → ℕ∞
  | some left, right => roundCount (left + right)
  | none, _ => ⊤

/-- `Math.max`. -/
def maxCounts (left right : ℕ∞) : ℕ∞ := if left ≤ right then right else left

section Rounding

variable {count left right : ℕ}

theorem roundCount_of_le (within : count ≤ 2 ^ 53) : roundCount count = count := by
  rw [roundCount, roundBinary64_natCast within]
  simp

/-- Rounding keeps the order of counts. -/
theorem roundCount_mono (below : left ≤ right) : roundCount left ≤ roundCount right := by
  have rounded : roundedValue (left : ℚ) ≤ roundedValue (right : ℚ) :=
    roundedValue_mono (by exact_mod_cast below)
  have nonneg : 0 ≤ roundedValue (left : ℚ) := roundedValue_nonneg (Nat.cast_nonneg left)
  simp only [roundCount, roundBinary64_eq, abs_of_nonneg nonneg,
    abs_of_nonneg (nonneg.trans rounded)]
  split_ifs with small great great
  · exact ENat.natCast_le_natCast.mpr (Int.toNat_le_toNat (Int.floor_mono rounded))
  · exact le_top
  · exact absurd (rounded.trans_lt great) small
  · exact le_refl _

theorem roundedValue_of_some {value rounded : ℚ} (found : roundBinary64 value = some rounded)
    : roundedValue value = rounded := by
  rw [roundBinary64_eq] at found
  split at found
  · exact Option.some.inj found
  · cases found

/-- The number nearest to a great count is a whole one. -/
theorem exists_natCast_of_large {rounded : ℚ} (large : 2 ^ 53 ≤ count)
    (found : roundBinary64 (count : ℚ) = some rounded)
    : ∃ whole : ℕ, rounded = whole := by
  have kept : roundedValue ((2 ^ 53 : ℕ) : ℚ) = ((2 ^ 53 : ℕ) : ℚ) :=
    roundedValue_of_some (roundBinary64_natCast le_rfl)
  have great : ((2 ^ 53 : ℕ) : ℚ) ≤ rounded := by
    rw [← kept, ← roundedValue_of_some found]
    exact roundedValue_mono (by exact_mod_cast large)
  have nonneg : 0 ≤ rounded := (Nat.cast_nonneg _).trans great
  let number : Binary64 := ⟨rounded, roundBinary64_idem found⟩
  have wide : 2 ^ 52 ≤ |number.value| := by
    rw [abs_of_nonneg nonneg]
    exact le_trans (by norm_num) great
  obtain ⟨whole, same⟩ := JsNumber.whole_of_large wide
  obtain ⟨natural, rfl⟩ := Int.eq_ofNat_of_zero_le
    (by exact_mod_cast nonneg.trans_eq same : 0 ≤ whole)
  exact ⟨natural, by exact_mod_cast same⟩

/-- What rounding gives is kept. -/
theorem roundCount_again (rounds : roundCount count = (left : ℕ))
    : roundCount left = (left : ℕ) := by
  by_cases small : count ≤ 2 ^ 53
  · rw [roundCount_of_le small] at rounds
    obtain rfl := ENat.natCast_inj.mp rounds
    exact roundCount_of_le small
  · cases found : roundBinary64 (count : ℚ) with
    | none =>
        rw [roundCount, found] at rounds
        cases rounds
    | some rounded =>
        obtain ⟨whole, rfl⟩ := exists_natCast_of_large (not_le.mp small).le found
        rw [roundCount, found] at rounds
        simp only [Int.floor_natCast, Int.toNat_natCast, ENat.natCast_inj] at rounds
        subst rounds
        rw [roundCount, roundBinary64_idem found]
        simp

/-- A count that rounding leaves below 2^53 is not rounded. -/
theorem roundCount_eq_of_lt (below : roundCount count < (2 ^ 53 : ℕ))
    : roundCount count = count := by
  apply roundCount_of_le
  by_contra great
  have reached := roundCount_mono (not_le.mp great).le
  rw [roundCount_of_le le_rfl] at reached
  exact absurd (reached.trans_lt below) (lt_irrefl _)

end Rounding

section Sums

variable {left right : ℕ∞} {first second : ℕ}

theorem addCounts_coe (count : ℕ) : addCounts count first = roundCount (count + first) := rfl

@[simp] theorem addCounts_top : addCounts ⊤ first = ⊤ := rfl

theorem addCounts_mono (below : left ≤ right) (fewer : first ≤ second)
    : addCounts left first ≤ addCounts right second := by
  cases right with
  | top => exact le_top
  | coe great =>
      cases left with
      | top => exact absurd below (by simp)
      | coe small =>
          apply roundCount_mono
          exact Nat.add_le_add (ENat.natCast_le_natCast.mp below) fewer

/-- Adding nothing to a rounded number keeps it. -/
@[simp] theorem addCounts_roundCount_zero (count : ℕ)
    : addCounts (roundCount count) 0 = roundCount count := by
  cases rounds : roundCount count with
  | top => rfl
  | coe rounded => exact roundCount_again rounds

/-- A sum that stays below 2^53 is the exact one. -/
theorem addCounts_eq_of_lt (below : addCounts left first < (2 ^ 53 : ℕ))
    : addCounts left first = left + first := by
  cases left with
  | top => simp at below
  | coe count =>
      rw [addCounts_coe] at below ⊢
      rw [roundCount_eq_of_lt below]
      exact ENat.natCast_add _ _

theorem lt_of_addCounts_lt (below : addCounts left first < (2 ^ 53 : ℕ))
    : left < (2 ^ 53 : ℕ) := by
  rw [addCounts_eq_of_lt below] at below
  exact (le_add_of_nonneg_right zero_le).trans_lt below

end Sums

/-- The maximum of a list and a base is the greatest of them. -/
theorem isGreatest_foldl_maxCounts (base : ℕ∞) (values : List ℕ∞)
    : IsGreatest (insert base {value | value ∈ values}) (values.foldl maxCounts base) := by
  induction values generalizing base with
  | nil => exact ⟨Set.mem_insert _ _, by rintro value (rfl | member) <;> simp_all⟩
  | cons head rest ih =>
      obtain ⟨attained, bound⟩ := ih (maxCounts base head)
      have reached := bound (Set.mem_insert _ _)
      rw [List.foldl_cons]
      generalize rest.foldl maxCounts (maxCounts base head) = greatest at attained bound reached ⊢
      have listed {value : ℕ∞} (later : value ∈ rest) : value ≤ greatest := bound (.inr later)
      have first : base ≤ greatest ∧ head ≤ greatest := by
        rw [maxCounts] at reached
        split at reached
        next small => exact ⟨small.trans reached, reached⟩
        next large => exact ⟨reached, (le_of_not_ge large).trans reached⟩
      refine ⟨?_, ?_⟩
      · rcases attained with isMax | later
        · rw [maxCounts] at isMax
          split at isMax
          · exact .inr (isMax ▸ List.mem_cons_self)
          · exact .inl isMax
        · exact .inr (List.mem_cons_of_mem _ later)
      · rintro value (rfl | member)
        · exact first.1
        · rcases List.mem_cons.mp member with rfl | later
          · exact first.2
          · exact listed later

end SpeculativeAction.Library
