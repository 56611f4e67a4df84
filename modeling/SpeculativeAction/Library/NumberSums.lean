import SpeculativeAction.Library.NumberArithmetic

/-! Sums of amounts as the host adds them, one after the other and each result rounded.
Rounding keeps the order of numbers, so leaving out amounts never makes a sum greater.
-/

namespace SpeculativeAction.Library

-- Rounding keeps the order

section Rounding

variable {value : ℚ}

theorem floor_le_roundHalfEven (value : ℚ) : ⌊value⌋ ≤ roundHalfEven value := by
  unfold roundHalfEven
  dsimp only
  split_ifs <;> omega

theorem roundHalfEven_le_floor_add_one (value : ℚ) : roundHalfEven value ≤ ⌊value⌋ + 1 := by
  unfold roundHalfEven
  dsimp only
  split_ifs <;> omega

theorem roundHalfEven_mono {left right : ℚ} (below : left ≤ right)
    : roundHalfEven left ≤ roundHalfEven right := by
  rcases (Int.floor_mono below).lt_or_eq with less | same
  · calc roundHalfEven left
        ≤ ⌊left⌋ + 1 := roundHalfEven_le_floor_add_one left
      _ ≤ ⌊right⌋ := less
      _ ≤ roundHalfEven right := floor_le_roundHalfEven right
  · unfold roundHalfEven
    dsimp only
    rw [same]
    split_ifs <;> first | omega | linarith

/-- An integer below a value is below the rounded one. -/
theorem le_roundHalfEven {bound : ℤ} (below : (bound : ℚ) ≤ value)
    : bound ≤ roundHalfEven value := by
  rw [← roundHalfEven_intCast bound]
  exact roundHalfEven_mono below

theorem roundHalfEven_le {bound : ℤ} (above : value ≤ bound)
    : roundHalfEven value ≤ bound := by
  rw [← roundHalfEven_intCast bound]
  exact roundHalfEven_mono above

/-- The rounded value whether or not it overflows. -/
def roundedValue (value : ℚ) : ℚ :=
  roundHalfEven (value / 2 ^ binary64Exponent value) * 2 ^ binary64Exponent value

theorem roundBinary64_eq (value : ℚ)
    : roundBinary64 value
      = if |roundedValue value| < 2 ^ 1024 then some (roundedValue value) else none := rfl

theorem roundedValue_neg (value : ℚ) : roundedValue (-value) = -roundedValue value := by
  rw [roundedValue, binary64Exponent_neg, neg_div, roundHalfEven_neg, roundedValue, Int.cast_neg,
    neg_mul]

theorem roundedValue_nonneg (nonneg : 0 ≤ value) : 0 ≤ roundedValue value := by
  have whole : (0 : ℤ) ≤ roundHalfEven (value / 2 ^ binary64Exponent value) := by
    refine le_roundHalfEven ?_
    rw [Int.cast_zero]
    positivity
  have cast : (0 : ℚ) ≤ roundHalfEven (value / 2 ^ binary64Exponent value) := by
    exact_mod_cast whole
  unfold roundedValue
  positivity

/-- A power of two that is no finer than the spacing separates rounded values. -/
theorem roundedValue_le_pow {exponent : ℤ} (below : value ≤ 2 ^ exponent)
    (coarse : binary64Exponent value ≤ exponent)
    : roundedValue value ≤ 2 ^ exponent := by
  obtain ⟨gap, same⟩ := Int.eq_ofNat_of_zero_le (Int.sub_nonneg.mpr coarse)
  have spacing : (0 : ℚ) < 2 ^ binary64Exponent value := by positivity
  have split_ : (2 : ℚ) ^ exponent = ((2 ^ gap : ℤ) : ℚ) * 2 ^ binary64Exponent value := by
    rw [Int.cast_pow, Int.cast_ofNat, ← zpow_natCast, ← zpow_add₀ two_ne_zero]
    congr 1
    omega
  have whole : roundHalfEven (value / 2 ^ binary64Exponent value) ≤ 2 ^ gap := by
    refine roundHalfEven_le ?_
    rw [div_le_iff₀ spacing, ← split_]
    exact below
  rw [roundedValue, split_]
  exact mul_le_mul_of_nonneg_right (by exact_mod_cast whole) spacing.le

theorem pow_le_roundedValue {exponent : ℤ} (above : 2 ^ exponent ≤ value)
    (coarse : binary64Exponent value ≤ exponent)
    : 2 ^ exponent ≤ roundedValue value := by
  obtain ⟨gap, same⟩ := Int.eq_ofNat_of_zero_le (Int.sub_nonneg.mpr coarse)
  have spacing : (0 : ℚ) < 2 ^ binary64Exponent value := by positivity
  have split_ : (2 : ℚ) ^ exponent = ((2 ^ gap : ℤ) : ℚ) * 2 ^ binary64Exponent value := by
    rw [Int.cast_pow, Int.cast_ofNat, ← zpow_natCast, ← zpow_add₀ two_ne_zero]
    congr 1
    omega
  have whole : 2 ^ gap ≤ roundHalfEven (value / 2 ^ binary64Exponent value) := by
    refine le_roundHalfEven ?_
    rw [le_div_iff₀ spacing, ← split_]
    exact above
  rw [roundedValue, split_]
  exact mul_le_mul_of_nonneg_right (by exact_mod_cast whole) spacing.le

theorem roundedValue_mono_of_pos {left right : ℚ} (positive : 0 < left) (below : left ≤ right)
    : roundedValue left ≤ roundedValue right := by
  have logs : Int.log 2 left ≤ Int.log 2 right := Int.log_mono_right positive below
  have leftExponent : binary64Exponent left = max (Int.log 2 left - 52) (-1074) := by
    rw [binary64Exponent, abs_of_pos positive]
  have rightExponent : binary64Exponent right = max (Int.log 2 right - 52) (-1074) := by
    rw [binary64Exponent, abs_of_pos (positive.trans_le below)]
  by_cases same : binary64Exponent left = binary64Exponent right
  · have spacing : (0 : ℚ) < 2 ^ binary64Exponent right := by positivity
    rw [roundedValue, roundedValue, same]
    refine mul_le_mul_of_nonneg_right ?_ spacing.le
    exact_mod_cast roundHalfEven_mono (div_le_div_of_nonneg_right below spacing.le)
  · -- the power of two at the start of the coarser binade lies between both values
    have less : Int.log 2 left < Int.log 2 right := by omega
    have next : left < 2 ^ (Int.log 2 left + 1) := by
      exact_mod_cast Int.lt_zpow_succ_log_self (by norm_num : 1 < 2) left
    have low : left ≤ 2 ^ Int.log 2 right :=
      next.le.trans (zpow_le_zpow_right₀ (by norm_num) less)
    have high : (2 : ℚ) ^ Int.log 2 right ≤ right := by
      exact_mod_cast Int.zpow_log_le_self (by norm_num) (positive.trans_le below)
    calc roundedValue left
        ≤ 2 ^ Int.log 2 right := roundedValue_le_pow low (by omega)
      _ ≤ roundedValue right := pow_le_roundedValue high (by omega)

theorem roundedValue_mono {left right : ℚ} (below : left ≤ right)
    : roundedValue left ≤ roundedValue right := by
  rcases lt_trichotomy left 0 with negative | zero | positive
  · rcases lt_or_ge right 0 with negative' | nonneg
    · have opposite := roundedValue_mono_of_pos (neg_pos.mpr negative') (neg_le_neg below)
      rw [roundedValue_neg, roundedValue_neg] at opposite
      exact neg_le_neg_iff.mp opposite
    · have low := roundedValue_nonneg (neg_nonneg.mpr negative.le)
      rw [roundedValue_neg] at low
      exact (neg_nonneg.mp low).trans (roundedValue_nonneg nonneg)
  · have nothing : roundedValue left = 0 := by simp [zero, roundedValue, roundHalfEven]
    rw [nothing]
    exact roundedValue_nonneg (zero ▸ below)
  · exact roundedValue_mono_of_pos positive below

end Rounding

-- Sums and comparisons

namespace JsNumber

/-- A sum with an infinity or with not-a-number. -/
def addUnbounded (left right : JsNumber) : JsNumber :=
  match left, right with
  | .nan, _ | _, .nan => .nan
  | .infinite first, .infinite second => if first = second then .infinite first else .nan
  | .infinite first, _ => .infinite first
  | _, other => other

def add (left right : JsNumber) : JsNumber :=
  match left.value?, right.value? with
  | some first, some second =>
      if left = .negativeZero ∧ right = .negativeZero then .negativeZero
      else ofRat (first + second)
  | _, _ => addUnbounded left right

/-- `left > right`; not-a-number is not greater than anything. -/
def exceeds (left right : JsNumber) : Bool :=
  decide (left ≠ .nan ∧ right ≠ .nan ∧ right.place < left.place)

/-- The second number exceeds whatever the first one exceeds. -/
def ExceedsMore (left right : JsNumber) : Prop :=
  left = .nan ∨ right ≠ .nan ∧ left.place ≤ right.place

/-- A finite number that is not negative. -/
def IsAmount (number : JsNumber) : Prop := ∃ value, number.value? = some value ∧ 0 ≤ value

/-- One number after the other is added to a first one. -/
def sumFrom (first : JsNumber) (amounts : List JsNumber) : JsNumber := amounts.foldl add first

theorem ofRat_place (value : ℚ)
    : (ofRat value).place
      = if |roundedValue value| < 2 ^ 1024 then
          ((roundedValue value : WithTop ℚ) : WithBot (WithTop ℚ))
        else if value < 0 then ⊥
        else ((⊤ : WithTop ℚ) : WithBot (WithTop ℚ)) := by
  have rounds := roundBinary64_eq value
  split_ifs at rounds ⊢ with small negative
  · rw [ofRat_of_some rounds]
    rfl
  · rw [ofRat_of_none rounds, decide_eq_true negative]
    rfl
  · rw [ofRat_of_none rounds, decide_eq_false negative]
    rfl

theorem roundedValue_nonpos {value : ℚ} (nonpos : value ≤ 0) : roundedValue value ≤ 0 := by
  have opposite := roundedValue_nonneg (neg_nonneg.mpr nonpos)
  rw [roundedValue_neg] at opposite
  exact neg_nonneg.mp opposite

theorem ofRat_place_mono {left right : ℚ} (below : left ≤ right)
    : (ofRat left).place ≤ (ofRat right).place := by
  have rounded := roundedValue_mono below
  rw [ofRat_place, ofRat_place]
  generalize (2 : ℚ) ^ 1024 = limit
  by_cases leftNegative : left < 0
  · by_cases leftSmall : |roundedValue left| < limit
    · rw [if_pos leftSmall]
      by_cases rightSmall : |roundedValue right| < limit
      · rw [if_pos rightSmall]
        exact_mod_cast rounded
      · rw [if_neg rightSmall]
        by_cases rightNegative : right < 0
        · -- the greater of two negative numbers is rounded no further away from zero
          rw [abs_of_nonpos (roundedValue_nonpos rightNegative.le)] at rightSmall
          rw [abs_of_nonpos (roundedValue_nonpos leftNegative.le)] at leftSmall
          linarith
        · rw [if_neg rightNegative]
          exact WithBot.coe_le_coe.mpr le_top
    · rw [if_neg leftSmall, if_pos leftNegative]
      exact bot_le
  · have leftNonneg := roundedValue_nonneg (not_lt.mp leftNegative)
    rw [abs_of_nonneg leftNonneg, abs_of_nonneg (leftNonneg.trans rounded), if_neg leftNegative,
      if_neg (not_lt.mpr ((not_lt.mp leftNegative).trans below))]
    by_cases rightSmall : roundedValue right < limit
    · rw [if_pos rightSmall, if_pos (rounded.trans_lt rightSmall)]
      exact_mod_cast rounded
    · rw [if_neg rightSmall]
      split_ifs
      · exact WithBot.coe_le_coe.mpr le_top
      · exact le_refl _

/-- A number is the nearest one to its own value. -/
theorem place_ofRat_of_value? {number : JsNumber} {value : ℚ} (exact_ : number.value? = some value)
    : (ofRat value).place = number.place := by
  rw [place_of_value? exact_]
  cases number with
  | finite number =>
      obtain rfl := Option.some.inj exact_
      rw [ofRat_of_some number.representable]
      rfl
  | negativeZero =>
      obtain rfl := Option.some.inj exact_
      have zero : roundBinary64 0 = some 0 := by simp [roundBinary64, roundHalfEven]
      rw [ofRat_of_some zero]
      rfl
  | infinite negative => cases exact_
  | nan => cases exact_

/-- The sum of two finite numbers lies where their exact sum is rounded to. -/
theorem add_place {left right : JsNumber} {first second : ℚ} (exactLeft : left.value? = some first)
    (exactRight : right.value? = some second)
    : (left.add right).place = (ofRat (first + second)).place ∧ left.add right ≠ .nan := by
  unfold add
  rw [exactLeft, exactRight]
  dsimp only
  split
  next zeros =>
    rw [zeros.1] at exactLeft
    rw [zeros.2] at exactRight
    obtain rfl := Option.some.inj exactLeft
    obtain rfl := Option.some.inj exactRight
    refine ⟨?_, JsNumber.noConfusion⟩
    rw [add_zero, place_ofRat_of_value? exactLeft]
  next => exact ⟨rfl, ofRat_ne_nan _⟩

/-- Numbers that are not `-∞` have a sum. -/
theorem HasPlace.add_ne_nan {left right : JsNumber} (has : left.HasPlace) (has' : right.HasPlace)
    : left.add right ≠ .nan := by
  cases exactLeft : left.value? with
  | some first =>
      cases exactRight : right.value? with
      | some second => exact (add_place exactLeft exactRight).2
      | none =>
          have unbounded : left.add right = right := by
            cases right with
            | finite _ | negativeZero => cases exactRight
            | infinite negative => cases left <;> first | rfl | cases exactLeft
            | nan => exact absurd rfl has'.1
          rw [unbounded]
          exact has'.1
  | none =>
      have unbounded : left.add right = left := by
        cases left with
        | finite _ | negativeZero => cases exactLeft
        | infinite negative =>
            cases negative with
            | true => exact absurd rfl has.2
            | false =>
                cases right with
                | finite _ | negativeZero => rfl
                | infinite negative =>
                    cases negative with
                    | true => exact absurd rfl has'.2
                    | false => rfl
                | nan => exact absurd rfl has'.1
        | nan => exact absurd rfl has.1
      rw [unbounded]
      exact has.1

/-- An infinity and not-a-number absorb finite numbers. -/
theorem add_of_unbounded {number amount : JsNumber} {value : ℚ} (unbounded : number.value? = none)
    (exact_ : amount.value? = some value)
    : number.add amount = number := by
  cases number with
  | finite _ | negativeZero => cases unbounded
  | infinite negative => cases amount <;> first | rfl | cases exact_
  | nan => cases amount <;> rfl

namespace ExceedsMore

variable {left middle right amount : JsNumber}

theorem refl (number : JsNumber) : ExceedsMore number number := by
  by_cases known : number = .nan
  · exact .inl known
  · exact .inr ⟨known, le_refl _⟩

theorem trans (first : ExceedsMore left middle) (second : ExceedsMore middle right)
    : ExceedsMore left right := by
  rcases first with unknown | ⟨known, below⟩
  · exact .inl unknown
  · rcases second with unknown | ⟨known', below'⟩
    · exact absurd unknown known
    · exact .inr ⟨known', below.trans below'⟩

/-- What it is named for. -/
theorem exceeds (more : ExceedsMore left right) {bound : JsNumber}
    (over_ : left.exceeds bound = true)
    : right.exceeds bound = true := by
  obtain ⟨known, bounded, above⟩ := of_decide_eq_true over_
  rcases more with unknown | ⟨known', below⟩
  · exact absurd unknown known
  · exact decide_eq_true ⟨known', bounded, above.trans_le below⟩

/-- Adding one finite number on both sides. -/
theorem add (more : ExceedsMore left right) (finite : amount.isFinite = true)
    : ExceedsMore (left.add amount) (right.add amount) := by
  obtain ⟨value, exact_⟩ := isFinite_iff.mp finite
  rcases more with unknown | ⟨known, below⟩
  · rw [unknown, add_of_unbounded rfl exact_]
    exact .inl rfl
  · cases exactRight : right.value? with
    | none =>
        -- not-a-number is excluded and below the least number lies only itself
        rw [add_of_unbounded exactRight exact_]
        refine .inr ⟨known, ?_⟩
        cases right with
        | finite _ | negativeZero => cases exactRight
        | infinite negative =>
            cases negative with
            | false =>
                cases place : (left.add amount).place with
                | bot => exact bot_le
                | coe _ => exact WithBot.coe_le_coe.mpr le_top
            | true =>
                have lowest : left.value? = none := by
                  cases exactLeft : left.value? with
                  | none => rfl
                  | some first =>
                      rw [place_of_value? exactLeft] at below
                      exact absurd below (WithBot.not_coe_le_bot _)
                rw [add_of_unbounded lowest exact_]
                exact below
        | nan => exact absurd rfl known
    | some second =>
        obtain ⟨rightPlace, rightKnown⟩ := add_place exactRight exact_
        cases exactLeft : left.value? with
        | none =>
            rw [add_of_unbounded exactLeft exact_]
            rw [place_of_value? exactRight] at below
            cases left with
            | finite _ | negativeZero => cases exactLeft
            | infinite negative =>
                cases negative with
                | false =>
                    exact absurd (WithBot.coe_le_coe.mp below) (not_le.mpr (WithTop.coe_lt_top _))
                | true => exact .inr ⟨rightKnown, bot_le⟩
            | nan => exact .inl rfl
        | some first =>
            obtain ⟨leftPlace, -⟩ := add_place exactLeft exact_
            refine .inr ⟨rightKnown, ?_⟩
            rw [leftPlace, rightPlace]
            rw [place_of_value? exactLeft, place_of_value? exactRight] at below
            have values : first ≤ second := by exact_mod_cast below
            exact ofRat_place_mono (add_le_add_left values value)

/-- Adding an amount on the right. -/
theorem add_right (is : amount.IsAmount) (number : JsNumber)
    : ExceedsMore number (number.add amount) := by
  obtain ⟨value, exact_, nonneg⟩ := is
  cases known : number.value? with
  | none =>
      rw [add_of_unbounded known exact_]
      exact .refl number
  | some first =>
      obtain ⟨place, sum⟩ := add_place known exact_
      refine .inr ⟨sum, ?_⟩
      rw [place, ← place_ofRat_of_value? known]
      exact ofRat_place_mono (le_add_of_nonneg_right nonneg)

/-- What exceeds more than zero does has a place. -/
theorem hasPlace {nothing : JsNumber} (zero : nothing.value? = some 0)
    (more : ExceedsMore nothing right)
    : right.HasPlace := by
  rcases more with unknown | ⟨known, above⟩
  · rw [unknown] at zero
    cases zero
  · refine ⟨known, fun lowest => ?_⟩
    rw [lowest, place_of_value? zero] at above
    exact absurd above (WithBot.not_coe_le_bot _)

/-- Starting from nothing adds nothing. -/
theorem nothing_add {nothing : JsNumber} (zero : nothing.value? = some 0)
    (finite : amount.isFinite = true)
    : ExceedsMore (nothing.add amount) amount := by
  obtain ⟨value, exact_⟩ := isFinite_iff.mp finite
  obtain ⟨place, -⟩ := add_place zero exact_
  refine .inr ⟨(hasPlace_of_value? exact_).1, ?_⟩
  rw [place, zero_add, place_ofRat_of_value? exact_]

/-- Adding nothing leaves what a number exceeds. -/
theorem add_nothing (nothing : amount.value? = some 0) (number : JsNumber)
    : ExceedsMore (number.add amount) number := by
  cases known : number.value? with
  | none =>
      rw [add_of_unbounded known nothing]
      exact .refl number
  | some first =>
      obtain ⟨place, -⟩ := add_place known nothing
      refine .inr ⟨(hasPlace_of_value? known).1, ?_⟩
      rw [place, add_zero, place_ofRat_of_value? known]

/-- The same amounts added to a greater first number. -/
theorem sumFrom_start {amounts : List JsNumber} (more : ExceedsMore left right)
    (finite : ∀ amount ∈ amounts, amount.isFinite = true)
    : ExceedsMore (sumFrom left amounts) (sumFrom right amounts) := by
  induction amounts generalizing left right with
  | nil => exact more
  | cons amount rest ih =>
      exact ih (more.add (finite amount List.mem_cons_self)) fun other member =>
        finite other (List.mem_cons_of_mem _ member)

/-- Leaving out amounts makes no sum greater, by induction over what is kept. -/
theorem sumFrom_sublist {kept amounts : List JsNumber} (some_ : kept.Sublist amounts)
    (are : ∀ amount ∈ amounts, amount.IsAmount) (first : JsNumber)
    : ExceedsMore (sumFrom first kept) (sumFrom first amounts) := by
  have finite {others : List JsNumber} (are : ∀ amount ∈ others, amount.IsAmount)
      : ∀ amount ∈ others, amount.isFinite = true := by
    intro amount member
    obtain ⟨value, exact_, -⟩ := are amount member
    exact isFinite_iff.mpr ⟨value, exact_⟩
  induction some_ generalizing first with
  | slnil => exact .refl first
  | cons amount _ ih =>
      have later := fun other member => are other (List.mem_cons_of_mem amount member)
      refine (ih later first).trans ?_
      exact (add_right (are amount List.mem_cons_self) first).sumFrom_start (finite later)
  | cons_cons amount _ ih =>
      exact ih (fun other member => are other (List.mem_cons_of_mem amount member)) _

/-- Leaving out items that amount to nothing leaves what a sum exceeds. -/
theorem sumFrom_filter {ι : Type*} {items : List ι} {amount : ι → Option JsNumber} {keep : ι → Bool}
    (finite : ∀ item ∈ items, ∀ number, amount item = some number → number.isFinite = true)
    (nothing
      : ∀ item ∈ items, keep item = false →
          ∀ number, amount item = some number → number.value? = some 0)
    (first : JsNumber)
    : ExceedsMore (sumFrom first (items.filterMap amount))
        (sumFrom first ((items.filter keep).filterMap amount)) := by
  induction items generalizing first with
  | nil => exact .refl first
  | cons item rest ih =>
      have restFinite := fun other member => finite other (List.mem_cons_of_mem item member)
      have later := ih restFinite fun other member => nothing other (List.mem_cons_of_mem _ member)
      by_cases kept : keep item = true
      · rw [List.filter_cons_of_pos kept]
        cases counted : amount item with
        | none =>
            rw [List.filterMap_cons_none counted, List.filterMap_cons_none counted]
            exact later first
        | some number =>
            rw [List.filterMap_cons_some counted, List.filterMap_cons_some counted]
            exact later (first.add number)
      · rw [List.filter_cons_of_neg kept]
        cases counted : amount item with
        | none =>
            rw [List.filterMap_cons_none counted]
            exact later first
        | some number =>
            rw [List.filterMap_cons_some counted]
            refine ExceedsMore.trans ?_ (later first)
            have unchanged := add_nothing
              (nothing item List.mem_cons_self (Bool.eq_false_iff.mpr kept) number counted) first
            refine unchanged.sumFrom_start fun other member => ?_
            obtain ⟨source, listed, same⟩ := List.mem_filterMap.mp member
            exact restFinite source listed other same

end ExceedsMore

end JsNumber

end SpeculativeAction.Library
