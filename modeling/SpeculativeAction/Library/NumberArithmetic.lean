import Mathlib.Order.WithBot
import Mathlib.Order.Compare
import SpeculativeAction.Library.NumberText

/-! Arithmetic of the host's numbers, every result rounded, and what a difference says about
the order of two numbers.
-/

namespace SpeculativeAction.Library

namespace JsNumber

/-- The nearest number; beyond the greatest one there is only an infinity. -/
def ofRat (value : ℚ) : JsNumber :=
  match rounding : roundBinary64 value with
  | some rounded => .finite ⟨rounded, roundBinary64_idem rounding⟩
  | none => .infinite (decide (value < 0))

/-- The place of a number on the extended line; not-a-number has none and stands lowest. -/
def place : JsNumber → WithBot (WithTop ℚ)
  | .finite number => ((number.value : WithTop ℚ) : WithBot (WithTop ℚ))
  | .negativeZero => (((0 : ℚ) : WithTop ℚ) : WithBot (WithTop ℚ))
  | .infinite false => ((⊤ : WithTop ℚ) : WithBot (WithTop ℚ))
  | .infinite true => ⊥
  | .nan => ⊥

/-- The exact value of a finite number. -/
def value? : JsNumber → Option ℚ
  | .finite number => some number.value
  | .negativeZero => some 0
  | _ => none

def isFinite (number : JsNumber) : Bool := number.value?.isSome

def sub (left right : JsNumber) : JsNumber :=
  match left, right with
  | .nan, _ | _, .nan => .nan
  | .infinite first, .infinite second => if first = second then .nan else .infinite first
  | .infinite first, _ => .infinite first
  | _, .infinite second => .infinite (!second)
  | left, right => ofRat (left.value?.getD 0 - right.value?.getD 0)

def mul (left right : JsNumber) : JsNumber :=
  match left.value?, right.value? with
  | some first, some second => ofRat (first * second)
  | _, _ =>
      if left = .nan ∨ right = .nan ∨ left.value? = some 0 ∨ right.value? = some 0 then .nan
      else .infinite (decide (left.place < ((0 : WithTop ℚ) : WithBot (WithTop ℚ)))
        != decide (right.place < ((0 : WithTop ℚ) : WithBot (WithTop ℚ))))

/-- Division by a positive number. -/
def divPositive (left right : JsNumber) : JsNumber :=
  match left, right with
  | .nan, _ | _, .nan => .nan
  | .infinite _, .infinite _ => .nan
  | .infinite first, _ => .infinite first
  | _, .infinite _ => ofRat 0
  | left, right => ofRat (left.value?.getD 0 / right.value?.getD 0)

def max (left right : JsNumber) : JsNumber :=
  if left = .nan ∨ right = .nan then .nan else if left.place < right.place then right else left

def min (left right : JsNumber) : JsNumber :=
  if left = .nan ∨ right = .nan then .nan else if right.place < left.place then right else left

def floor (number : JsNumber) : JsNumber :=
  match number.value? with
  | some value => ofRat ⌊value⌋
  | none => number

/-- Zero and not-a-number count as false. -/
def orElse (first second : JsNumber) : JsNumber :=
  match first with
  | .nan | .negativeZero => second
  | .finite number => if number.value = 0 then second else first
  | .infinite _ => first

/-- What the sign of a comparison result says. -/
def ordering : JsNumber → Ordering
  | .finite number => cmp number.value 0
  | .infinite negative => if negative then .lt else .gt
  | _ => .eq

section Rounding

variable {value : ℚ}

/-- A multiple of the least positive number. -/
def Gradual (value : ℚ) : Prop := ∃ multiple : ℤ, value * 2 ^ 1074 = multiple

theorem Gradual.sub {left right : ℚ} (first : Gradual left) (second : Gradual right)
    : Gradual (left - right) := by
  obtain ⟨multiple, same⟩ := first
  obtain ⟨other, same'⟩ := second
  exact ⟨multiple - other, by rw [sub_mul, same, same', Int.cast_sub]⟩

theorem Gradual.neg (gradual : Gradual value) : Gradual (-value) := by
  obtain ⟨multiple, same⟩ := gradual
  exact ⟨-multiple, by rw [neg_mul, same, Int.cast_neg]⟩

theorem gradual_of_value? {number : JsNumber} (exact_ : number.value? = some value)
    : Gradual value := by
  cases number with
  | finite number => exact Option.some.inj exact_ ▸ exists_mul_two_pow number
  | negativeZero => exact ⟨0, by rw [← Option.some.inj exact_]; simp⟩
  | infinite negative => cases exact_
  | nan => cases exact_

/-- A positive multiple of the least number is not rounded to zero. -/
theorem roundBinary64_pos {rounded : ℚ} (gradual : Gradual value) (positive : 0 < value)
    (rounds : roundBinary64 value = some rounded)
    : 0 < rounded := by
  have spacing : (2 : ℚ) ^ binary64Exponent value ≤ value := by
    unfold binary64Exponent
    rcases le_total (Int.log 2 |value| - 52) (-1074) with low | high
    · rw [max_eq_right low]
      obtain ⟨multiple, same⟩ := gradual
      have whole : (1 : ℚ) ≤ multiple := by
        have more : (0 : ℚ) < multiple := by
          rw [← same]
          positivity
        exact_mod_cast more
      rw [zpow_neg, ← one_div, div_le_iff₀ (by positivity)]
      exact_mod_cast same ▸ whole
    · rw [max_eq_left high]
      calc (2 : ℚ) ^ (Int.log 2 |value| - 52)
          ≤ (2 : ℚ) ^ Int.log 2 |value| := zpow_le_zpow_right₀ (by norm_num) (by omega)
        _ ≤ |value| := Int.zpow_log_le_self (by norm_num) (abs_pos.mpr positive.ne')
        _ = value := abs_of_pos positive
  have unit : (1 : ℚ) ≤ value / 2 ^ binary64Exponent value := by
    rwa [one_le_div (by positivity)]
  have near := abs_roundHalfEven_sub_le (value / 2 ^ binary64Exponent value)
  rw [abs_le] at near
  have more : (0 : ℚ) < roundHalfEven (value / 2 ^ binary64Exponent value) := by linarith [near.1]
  unfold roundBinary64 at rounds
  dsimp only at rounds
  split at rounds
  · rw [← Option.some.inj rounds]
    positivity
  · cases rounds

theorem ofRat_of_some {rounded : ℚ} (rounds : roundBinary64 value = some rounded)
    : ofRat value = .finite ⟨rounded, roundBinary64_idem rounds⟩ := by
  unfold ofRat
  split
  · rename_i other same
    obtain rfl := Option.some.inj (same.symm.trans rounds)
    rfl
  · rename_i overflow
    cases rounds.symm.trans overflow

theorem ofRat_of_none (overflow : roundBinary64 value = none)
    : ofRat value = .infinite (decide (value < 0)) := by
  unfold ofRat
  split
  · rename_i other same
    cases same.symm.trans overflow
  · rfl

/-- Rounding keeps the sign of a multiple of the least number. -/
theorem ordering_ofRat (gradual : Gradual value)
    : (ofRat value).ordering = cmp value 0 := by
  cases rounds : roundBinary64 value with
  | none =>
      rw [ofRat_of_none rounds, ordering]
      rcases lt_trichotomy value 0 with negative | zero | positive
      · rw [decide_eq_true negative, if_pos rfl, (cmp_eq_lt_iff _ _).mpr negative]
      · rw [zero] at rounds
        simp [roundBinary64, roundHalfEven] at rounds
      · rw [decide_eq_false positive.not_gt, if_neg Bool.false_ne_true,
          (cmp_eq_gt_iff _ _).mpr positive]
  | some rounded =>
      rw [ofRat_of_some rounds, ordering]
      dsimp only
      rcases lt_trichotomy value 0 with negative | zero | positive
      · have opposite : roundBinary64 (-value) = some (-rounded) := by
          rw [roundBinary64_neg, rounds]
          rfl
        have below := roundBinary64_pos gradual.neg (neg_pos.mpr negative) opposite
        rw [(cmp_eq_lt_iff _ _).mpr negative, (cmp_eq_lt_iff _ _).mpr (neg_pos.mp below)]
      · rw [zero] at rounds
        have same : (0 : ℚ) = rounded := by
          simpa [roundBinary64, roundHalfEven] using rounds
        rw [zero, same]
      · rw [(cmp_eq_gt_iff _ _).mpr positive,
          (cmp_eq_gt_iff _ _).mpr (roundBinary64_pos gradual positive rounds)]

end Rounding

section Order

variable {number : JsNumber}

/-- A number with a place above all negative ones. -/
def HasPlace (number : JsNumber) : Prop := number ≠ .nan ∧ number ≠ .infinite true

theorem hasPlace_of_value? {value : ℚ} (exact_ : number.value? = some value)
    : number.HasPlace := by
  cases number <;> simp_all [value?, HasPlace]

theorem place_of_value? {value : ℚ} (exact_ : number.value? = some value)
    : number.place = ((value : WithTop ℚ) : WithBot (WithTop ℚ)) := by
  cases number <;> simp_all [value?, place]

/-- A number with a place is an exact one or the positive infinity. -/
theorem HasPlace.cases (has : number.HasPlace)
    : (∃ value, number.value? = some value) ∨ number = .infinite false := by
  cases number with
  | finite number => exact .inl ⟨_, rfl⟩
  | negativeZero => exact .inl ⟨_, rfl⟩
  | infinite negative =>
      cases negative with
      | false => exact .inr rfl
      | true => exact absurd rfl has.2
  | nan => exact absurd rfl has.1

theorem sub_of_value? {left right : JsNumber} {first second : ℚ}
    (exactLeft : left.value? = some first) (exactRight : right.value? = some second)
    : left.sub right = ofRat (first - second) := by
  cases left <;> cases right <;> cases exactLeft <;> cases exactRight <;> rfl

theorem infinite_sub {right : JsNumber} {second : ℚ} (exactRight : right.value? = some second)
    : (infinite false).sub right = .infinite false := by
  cases right <;> cases exactRight <;> rfl

theorem sub_infinite {left : JsNumber} {first : ℚ} (exactLeft : left.value? = some first)
    : left.sub (.infinite false) = .infinite true := by
  cases left <;> cases exactLeft <;> rfl

/-- The sign of a difference is how the two numbers compare. -/
theorem ordering_sub {left right : JsNumber} (hasLeft : left.HasPlace) (hasRight : right.HasPlace)
    : (left.sub right).ordering = cmp left.place right.place := by
  rcases hasLeft.cases with ⟨first, exactLeft⟩ | rfl
  · rcases hasRight.cases with ⟨second, exactRight⟩ | rfl
    · rw [sub_of_value? exactLeft exactRight, place_of_value? exactLeft,
        place_of_value? exactRight,
        ordering_ofRat ((gradual_of_value? exactLeft).sub (gradual_of_value? exactRight))]
      rcases lt_trichotomy first second with less | same | more
      · rw [(cmp_eq_lt_iff _ _).mpr (sub_neg.mpr less), (cmp_eq_lt_iff _ _).mpr (by exact_mod_cast less)]
      · rw [same, sub_self, cmp_self_eq_eq, cmp_self_eq_eq]
      · rw [(cmp_eq_gt_iff _ _).mpr (sub_pos.mpr more), (cmp_eq_gt_iff _ _).mpr (by exact_mod_cast more)]
    · rw [sub_infinite exactLeft, place_of_value? exactLeft]
      exact ((cmp_eq_lt_iff _ _).mpr (WithBot.coe_lt_coe.mpr (WithTop.coe_lt_top first))).symm
  · rcases hasRight.cases with ⟨second, exactRight⟩ | rfl
    · rw [infinite_sub exactRight, place_of_value? exactRight]
      exact ((cmp_eq_gt_iff _ _).mpr (WithBot.coe_lt_coe.mpr (WithTop.coe_lt_top second))).symm
    · rw [cmp_self_eq_eq]
      rfl

/-- Falling back to a second comparison where the first one decides nothing. -/
theorem ordering_orElse (first second : JsNumber)
    : (first.orElse second).ordering = first.ordering.then second.ordering := by
  cases first with
  | finite number =>
      rw [orElse]
      split
      · rename_i zero
        rw [ordering, zero, cmp_self_eq_eq]
        rfl
      · rename_i nonzero
        rcases lt_or_gt_of_ne nonzero with negative | positive
        · rw [ordering, (cmp_eq_lt_iff _ _).mpr negative]
          rfl
        · rw [ordering, (cmp_eq_gt_iff _ _).mpr positive]
          rfl
  | negativeZero => rfl
  | infinite negative => cases negative <;> rfl
  | nan => rfl

end Order

section Closure

variable {number : JsNumber}

@[simp] theorem isFinite_iff
    : number.isFinite = true ↔ ∃ value, number.value? = some value := by
  rw [isFinite, Option.isSome_iff_exists]

theorem HasPlace.of_isFinite (finite : number.isFinite = true)
    : number.HasPlace := by
  obtain ⟨value, exact_⟩ := isFinite_iff.mp finite
  exact hasPlace_of_value? exact_

theorem ofRat_ne_nan (value : ℚ) : ofRat value ≠ .nan := by
  unfold ofRat
  split <;> simp

theorem isFinite_ofRat {value : ℚ} (exact_ : roundBinary64 value = some value)
    : (ofRat value).isFinite = true := by
  rw [ofRat_of_some exact_]
  rfl

/-- From 2^52 on every number is a whole one. -/
theorem whole_of_large {number : Binary64} (large : 2 ^ 52 ≤ |number.value|)
    : ∃ whole : ℤ, number.value = whole := by
  have nonzero : 0 < |number.value| := lt_of_lt_of_le (by positivity) large
  have log : 52 ≤ Int.log 2 |number.value| := by
    refine (Int.zpow_le_iff_le_log (by norm_num) nonzero).mp ?_
    exact_mod_cast large
  have wide : 0 ≤ binary64Exponent number.value := by
    unfold binary64Exponent
    omega
  obtain ⟨power, same⟩ := Int.eq_ofNat_of_zero_le wide
  have rounded := number.representable
  unfold roundBinary64 at rounded
  dsimp only at rounded
  split at rounded
  · refine ⟨roundHalfEven (number.value / 2 ^ binary64Exponent number.value) * 2 ^ power, ?_⟩
    have exact_ := Option.some.inj rounded
    rw [same, zpow_natCast] at exact_
    push_cast
    rw [same, zpow_natCast]
    exact exact_.symm
  · cases rounded

/-- The floor of a finite number is finite. -/
theorem isFinite_floor (finite : number.isFinite = true)
    : number.floor.isFinite = true := by
  obtain ⟨value, exact_⟩ := isFinite_iff.mp finite
  unfold floor
  rw [exact_]
  refine isFinite_ofRat ?_
  cases number with
  | finite number =>
      rw [← Option.some.inj exact_]
      by_cases large : 2 ^ 52 ≤ |number.value|
      · obtain ⟨whole, same⟩ := whole_of_large large
        rw [same, Int.floor_intCast, ← same]
        exact number.representable
      · have bound : |⌊number.value⌋| ≤ 2 ^ 53 := by
          rw [not_le, abs_lt] at large
          have low := Int.floor_le number.value
          have high := Int.lt_floor_add_one number.value
          rw [abs_le]
          constructor
          · have : (-2 ^ 53 : ℚ) ≤ ⌊number.value⌋ := by linarith
            exact_mod_cast this
          · have : (⌊number.value⌋ : ℚ) ≤ 2 ^ 53 := by linarith
            exact_mod_cast this
        exact roundBinary64_intCast bound
  | negativeZero =>
      rw [← Option.some.inj exact_]
      simp [roundBinary64, roundHalfEven]
  | infinite negative => cases exact_
  | nan => cases exact_

theorem max_eq_nan_iff {left right : JsNumber}
    : left.max right = .nan ↔ left = .nan ∨ right = .nan := by
  unfold max
  by_cases either : left = .nan ∨ right = .nan
  · simp [either]
  · rw [if_neg either]
    rw [not_or] at either
    split <;> simp [either]

theorem max_eq_or {left right : JsNumber} (known : left ≠ .nan) (known' : right ≠ .nan)
    : left.max right = left ∨ left.max right = right ∧ left.place < right.place := by
  unfold max
  rw [if_neg (not_or.mpr ⟨known, known'⟩)]
  split
  · rename_i less
    exact .inr ⟨rfl, less⟩
  · exact .inl rfl

theorem HasPlace.max {left right : JsNumber} (has : left.HasPlace) (known : right ≠ .nan)
    : (left.max right).HasPlace := by
  rcases max_eq_or has.1 known with same | ⟨same, less⟩
  · rwa [same]
  · rw [same]
    refine ⟨known, fun negative => ?_⟩
    rw [negative] at less
    exact absurd less (not_lt_bot)

theorem isFinite_max {left right : JsNumber} (finite : left.isFinite = true)
    (finite' : right.isFinite = true)
    : (left.max right).isFinite = true := by
  rcases max_eq_or (HasPlace.of_isFinite finite).1 (HasPlace.of_isFinite finite').1 with same | same
  · rwa [same]
  · rwa [same.1]

theorem HasPlace.min {left right : JsNumber} (has : left.HasPlace) (has' : right.HasPlace)
    : (left.min right).HasPlace := by
  unfold JsNumber.min
  rw [if_neg (not_or.mpr ⟨has.1, has'.1⟩)]
  split
  · exact has'
  · exact has

theorem sub_ne_nan {left right : JsNumber} (has : left.HasPlace) (finite : right.isFinite = true)
    : left.sub right ≠ .nan := by
  obtain ⟨second, exact_⟩ := isFinite_iff.mp finite
  rcases has.cases with ⟨first, known⟩ | rfl
  · rw [sub_of_value? known exact_]
    exact ofRat_ne_nan _
  · rw [infinite_sub exact_]
    simp

theorem divPositive_ne_nan {left right : JsNumber} (finite : left.isFinite = true)
    (known : right ≠ .nan)
    : left.divPositive right ≠ .nan := by
  cases left with
  | finite number =>
      cases right <;> first | exact absurd rfl known | exact ofRat_ne_nan _
  | negativeZero =>
      cases right <;> first | exact absurd rfl known | exact ofRat_ne_nan _
  | infinite negative => cases finite
  | nan => cases finite

@[simp] theorem divPositive_nan (left : JsNumber) : left.divPositive .nan = .nan := by
  cases left <;> rfl

end Closure

end JsNumber

end SpeculativeAction.Library
