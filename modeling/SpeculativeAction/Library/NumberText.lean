import Mathlib.Algebra.Order.Field.Power
import Mathlib.Algebra.Order.Floor.Ring
import Mathlib.Data.Nat.Digits.Lemmas
import Mathlib.Tactic.FieldSimp
import Mathlib.Tactic.Ring
import SpeculativeAction.Library.Binary64

/-! Decimal texts of numbers: the shortest decimal that rounds back to a binary64 number, how
it is laid out as text, and how the text of a number is read.
-/

namespace SpeculativeAction.Library

/-- One UTF-16 code unit. -/
abbrev CodeUnit := Fin 65536

/-- A string as its code units; unpaired surrogates are allowed. -/
abbrev JsString := List CodeUnit

def codeUnit (value : ℕ) : CodeUnit := Fin.ofNat 65536 value

/-- The code unit of a character of the basic plane. -/
def unit (char : Char) : CodeUnit := Fin.ofNat 65536 char.toNat

/-- The UTF-16 encoding of a character. -/
def encodeChar (char : Char) : JsString :=
  if char.toNat < 65536 then [unit char]
  else
    [Fin.ofNat 65536 (55296 + (char.toNat - 65536) / 1024),
      Fin.ofNat 65536 (56320 + (char.toNat - 65536) % 1024)]

/-- The UTF-16 encoding of a text. -/
def units (text : String) : JsString := text.toList.flatMap encodeChar

section Digits

def isDigit (unit : CodeUnit) : Bool := decide (48 ≤ unit.val ∧ unit.val ≤ 57)

def digitUnit (digit : ℕ) : CodeUnit := Fin.ofNat 65536 (48 + digit)

def digitValue (unit : CodeUnit) : ℕ := unit.val - 48

/-- The decimal digits of a natural number. -/
def decimalText (value : ℕ) : JsString :=
  if value = 0 then [unit '0'] else (Nat.digits 10 value).reverse.map digitUnit

/-- The natural number of a text of digits. -/
def decimalValue (text : JsString) : ℕ := Nat.ofDigits 10 (text.reverse.map digitValue)

theorem isDigit_digitUnit {digit : ℕ} (small : digit < 10) : isDigit (digitUnit digit) = true := by
  interval_cases digit <;> rfl

theorem digitValue_digitUnit {digit : ℕ} (small : digit < 10)
    : digitValue (digitUnit digit) = digit := by
  interval_cases digit <;> rfl

theorem isDigit_decimalText (value : ℕ) : ∀ unit ∈ decimalText value, isDigit unit = true := by
  intro digit member
  unfold decimalText at member
  split at member
  · rw [List.mem_singleton.mp member]
    rfl
  · obtain ⟨number, digits, same⟩ := List.mem_map.mp member
    rw [← same]
    exact isDigit_digitUnit (Nat.digits_lt_base (by decide) (List.mem_reverse.mp digits))

theorem decimalText_ne_nil (value : ℕ) : decimalText value ≠ [] := by
  unfold decimalText
  split
  · exact List.cons_ne_nil _ _
  · rename_i positive
    simpa [Nat.digits_eq_nil_iff_eq_zero] using positive

/-- Only zero starts with the digit zero. -/
theorem head?_decimalText {value : ℕ} (positive : value ≠ 0)
    : (decimalText value).head? ≠ some (unit '0') := by
  rw [decimalText, if_neg positive, List.head?_map, List.head?_reverse]
  have nonempty : Nat.digits 10 value ≠ [] := Nat.digits_ne_nil_iff_ne_zero.mpr positive
  have last := Nat.getLast_digit_ne_zero 10 positive
  have small := Nat.digits_lt_base (by decide) (List.getLast_mem nonempty)
  rw [List.getLast?_eq_getLast_of_ne_nil nonempty, Option.map_some]
  generalize (Nat.digits 10 value).getLast nonempty = digit at last small
  interval_cases digit <;> simp_all [digitUnit, unit]

@[simp] theorem decimalValue_decimalText (value : ℕ)
    : decimalValue (decimalText value) = value := by
  unfold decimalText
  split
  · rename_i zero
    rw [zero]
    rfl
  · have digits : ((Nat.digits 10 value).map digitUnit).map digitValue = Nat.digits 10 value := by
      rw [List.map_map, List.map_congr_left (g := id) ?_, List.map_id]
      intro digit member
      exact digitValue_digitUnit (Nat.digits_lt_base (by decide) member)
    rw [decimalValue, ← List.map_reverse, List.reverse_reverse, digits, Nat.ofDigits_digits]

theorem decimalValue_append (left right : JsString)
    : decimalValue (left ++ right)
      = decimalValue left * 10 ^ right.length + decimalValue right := by
  simp only [decimalValue, List.reverse_append, List.map_append, Nat.ofDigits_append,
    List.length_map, List.length_reverse]
  ring

theorem decimalValue_zeros (count : ℕ)
    : decimalValue (List.replicate count (unit '0')) = 0 := by
  induction count with
  | zero => rfl
  | succ count ih =>
      rw [List.replicate_succ', decimalValue_append, ih]
      rfl

end Digits

section Layout

/-- A decimal as it is written: digits, digits after the point, and an exponent. -/
structure Decimal where
  whole : JsString
  fraction : JsString
  exponent : Option ℤ
deriving DecidableEq

def exponentText (exponent : ℤ) : JsString :=
  unit 'e' :: unit (if exponent < 0 then '-' else '+') :: decimalText exponent.natAbs

def Decimal.text (decimal : Decimal) : JsString :=
  decimal.whole
    ++ ((if decimal.fraction = [] then [] else unit '.' :: decimal.fraction)
      ++ (decimal.exponent.map exponentText).getD [])

/-- The exact value of a decimal. -/
def Decimal.value (decimal : Decimal) : ℚ :=
  decimalValue (decimal.whole ++ decimal.fraction)
    * 10 ^ (decimal.exponent.getD 0 - decimal.fraction.length)

/-- Lay out digits whose decimal point is `point` places after the first. -/
def layout (digits : JsString) (point : ℤ) : Decimal :=
  if digits.length ≤ point ∧ point ≤ 21 then
    ⟨digits ++ List.replicate (point - digits.length).toNat (unit '0'), [], none⟩
  else if 0 < point ∧ point ≤ 21 then
    ⟨digits.take point.toNat, digits.drop point.toNat, none⟩
  else if -6 < point ∧ point ≤ 0 then
    ⟨[unit '0'], List.replicate (-point).toNat (unit '0') ++ digits, none⟩
  else
    ⟨digits.take 1, digits.drop 1, some (point - 1)⟩

/-- A decimal that may be written as a number: digits, at least one before the point, and
no zero in front of others.
-/
structure Decimal.WellFormed (decimal : Decimal) : Prop where
  whole : ∀ unit ∈ decimal.whole, isDigit unit = true
  fraction : ∀ unit ∈ decimal.fraction, isDigit unit = true
  nonempty : decimal.whole ≠ []
  leading : decimal.whole.length = 1 ∨ decimal.whole.head? ≠ some (unit '0')

theorem layout_wellFormed {digits : JsString} (point : ℤ)
    (decimals : ∀ unit ∈ digits, isDigit unit = true) (nonempty : digits ≠ [])
    (leading : digits.head? ≠ some (unit '0'))
    : (layout digits point).WellFormed := by
  have zeros (count : ℕ) : ∀ digit ∈ List.replicate count (unit '0'), isDigit digit = true := by
    intro digit member
    rw [List.eq_of_mem_replicate member]
    rfl
  obtain ⟨first, rest, same⟩ := List.exists_cons_of_ne_nil nonempty
  unfold layout
  split
  · constructor
    · exact List.forall_mem_append.mpr ⟨decimals, zeros _⟩
    · intro digit member
      cases member
    · simp [same]
    · right
      rwa [List.head?_append_of_ne_nil _ nonempty]
  · split
    · rename_i inside
      have count : 0 < point.toNat := by omega
      constructor
      · exact fun digit member => decimals digit (List.mem_of_mem_take member)
      · exact fun digit member => decimals digit (List.mem_of_mem_drop member)
      · simp [same, count.ne']
      · right
        rwa [List.head?_take, if_neg count.ne']
    · split
      · constructor
        · intro digit member
          rw [List.mem_singleton.mp member]
          rfl
        · exact List.forall_mem_append.mpr ⟨zeros _, decimals⟩
        · exact List.cons_ne_nil _ _
        · exact .inl rfl
      · constructor
        · exact fun digit member => decimals digit (List.mem_of_mem_take member)
        · exact fun digit member => decimals digit (List.mem_of_mem_drop member)
        · simp [same]
        · left
          simp [same]

/-- Laying digits out only moves their decimal point. -/
theorem layout_value {digits : JsString} (nonempty : digits ≠ []) (point : ℤ)
    : (layout digits point).value = decimalValue digits * 10 ^ (point - digits.length) := by
  unfold layout Decimal.value
  split
  · rename_i whole
    dsimp only
    have shift : (((point - digits.length).toNat : ℕ) : ℤ) = point - digits.length := by omega
    rw [List.append_nil, decimalValue_append, decimalValue_zeros, List.length_replicate]
    push_cast
    rw [← zpow_natCast, shift]
    simp
  · split
    · rename_i inside
      dsimp only
      rw [List.take_append_drop, List.length_drop]
      congr 2
      simp only [Option.getD_none]
      omega
    · split
      · rename_i small
        dsimp only
        rw [List.singleton_append, ← List.cons_append, ← List.replicate_succ,
          decimalValue_append, decimalValue_zeros]
        simp only [Option.getD_none, List.length_append, List.length_replicate, zero_mul,
          zero_add]
        congr 2
        omega
      · dsimp only
        rw [List.take_append_drop, List.length_drop]
        congr 2
        simp only [Option.getD_some]
        obtain ⟨first, rest, same⟩ := List.exists_cons_of_ne_nil nonempty
        simp only [same, List.length_cons, Nat.add_sub_cancel]
        push_cast
        ring

end Layout

section Reading

/-- The digits after a decimal point, and what follows them. -/
def readFraction : JsString → Option (JsString × JsString)
  | [] => some ([], [])
  | first :: rest =>
      if first = unit '.' then
        if rest.takeWhile isDigit = [] then none
        else some (rest.takeWhile isDigit, rest.dropWhile isDigit)
      else some ([], first :: rest)

/-- An exponent up to the end of the text. -/
def readExponent : JsString → Option (Option ℤ)
  | [] => some none
  | first :: rest =>
      if first = unit 'e' ∨ first = unit 'E' then
        let negative := rest.head? = some (unit '-')
        let digits := if negative ∨ rest.head? = some (unit '+') then rest.tail else rest
        if digits ≠ [] ∧ digits.all isDigit then
          some (some (if negative then -decimalValue digits else decimalValue digits))
        else none
      else none

/-- A text as the number it is, without a sign. -/
def readDecimal (text : JsString) : Option Decimal :=
  let whole := text.takeWhile isDigit
  if whole = [] ∨ 1 < whole.length ∧ whole.head? = some (unit '0') then none
  else
    (readFraction (text.dropWhile isDigit)).bind fun (fraction, rest) =>
      (readExponent rest).map fun exponent => ⟨whole, fraction, exponent⟩

/-- No digit starts the text. -/
def StartsOther (text : JsString) : Prop := ∀ first ∈ text.head?, isDigit first = false

theorem takeWhile_digits {digits rest : JsString} (decimals : ∀ unit ∈ digits, isDigit unit = true)
    (other : StartsOther rest)
    : (digits ++ rest).takeWhile isDigit = digits := by
  rw [List.takeWhile_append_of_pos decimals]
  cases rest with
  | nil => simp
  | cons first rest => simp [other first rfl]

theorem dropWhile_digits {digits rest : JsString} (decimals : ∀ unit ∈ digits, isDigit unit = true)
    (other : StartsOther rest)
    : (digits ++ rest).dropWhile isDigit = rest := by
  rw [List.dropWhile_append_of_pos decimals]
  cases rest with
  | nil => simp
  | cons first rest => simp [other first rfl]

theorem readExponent_text (exponent : Option ℤ)
    : readExponent ((exponent.map exponentText).getD []) = some exponent := by
  cases exponent with
  | none => rfl
  | some exponent =>
      have digits := isDigit_decimalText exponent.natAbs
      simp only [Option.map_some, Option.getD_some, exponentText, readExponent, true_or, if_true]
      by_cases negative : exponent < 0
      · simp [negative, decimalText_ne_nil, List.all_eq_true.mpr digits, abs_of_neg negative]
      · have plus : unit '+' ≠ unit '-' := by decide
        have size : |exponent| = exponent := abs_of_nonneg (Int.not_lt.mp negative)
        simp [negative, plus, decimalText_ne_nil, List.all_eq_true.mpr digits, size]

theorem startsOther_exponent (exponent : Option ℤ)
    : StartsOther ((exponent.map exponentText).getD []) := by
  intro first head
  cases exponent with
  | none => cases head
  | some exponent =>
      obtain rfl := Option.some.inj head
      rfl

theorem readFraction_text {fraction : JsString} (decimals : ∀ unit ∈ fraction, isDigit unit = true)
    (exponent : Option ℤ)
    : readFraction
        ((if fraction = [] then [] else unit '.' :: fraction)
          ++ (exponent.map exponentText).getD [])
      = some (fraction, (exponent.map exponentText).getD []) := by
  split
  · rename_i empty
    cases exponent with
    | none => rw [empty]; rfl
    | some exponent => rw [empty]; rfl
  · rename_i some
    have other := startsOther_exponent exponent
    simp only [List.cons_append, readFraction, if_true, takeWhile_digits decimals other,
      dropWhile_digits decimals other, if_neg some]

/-- A well-formed decimal is read back from its text. -/
theorem readDecimal_text {decimal : Decimal} (formed : decimal.WellFormed)
    : readDecimal decimal.text = some decimal := by
  have other
      : StartsOther ((if decimal.fraction = [] then [] else unit '.' :: decimal.fraction)
          ++ (decimal.exponent.map exponentText).getD []) := by
    split
    · exact startsOther_exponent decimal.exponent
    · intro first head
      obtain rfl := Option.some.inj head
      rfl
  have leading
      : ¬(decimal.whole = []
          ∨ 1 < decimal.whole.length ∧ decimal.whole.head? = some (unit '0')) := by
    intro bad
    rcases bad with empty | ⟨long, zero⟩
    · exact formed.nonempty empty
    · rcases formed.leading with single | nonzero
      · omega
      · exact nonzero zero
  simp only [readDecimal, Decimal.text, takeWhile_digits formed.whole other,
    dropWhile_digits formed.whole other, if_neg leading, readFraction_text formed.fraction,
    readExponent_text, Option.bind_some, Option.map_some]

end Reading

section Numbers

variable {value : ℚ}

/-- Among the decimals with so many digits, the one nearest to a positive value that rounds
to it, as its digits and their exponent.
-/
def decimalAt (value : ℚ) (precision : ℕ) : Option (ℕ × ℤ) :=
  let exponent := Int.log 10 value + 1 - precision
  let nearest : ℕ := (roundHalfEven (value / 10 ^ exponent)).toNat
  let other : ℕ := if nearest * 10 ^ exponent ≤ value then nearest + 1 else nearest - 1
  let candidates := [nearest, other].filter fun digits : ℕ =>
    0 < digits ∧ roundBinary64 (digits * 10 ^ exponent) = some value
  candidates.head?.map fun digits =>
    if digits = 10 ^ precision then (1, exponent + precision) else (digits, exponent)

/-- The decimal with the fewest digits that rounds to a positive value. -/
def shortestDecimal (value : ℚ) : Option (ℕ × ℤ) :=
  (List.range (Int.log 10 value + 1 + 1074).toNat).findSome? fun index =>
    decimalAt value (index + 1)

/-- Text of a positive binary64 number. -/
def magnitudeText (value : ℚ) : JsString :=
  match shortestDecimal value with
  | some (digits, exponent) =>
      let text := decimalText digits
      (layout text (exponent + text.length)).text
  | none => []

/-- `Number::toString` of a finite number. -/
def numberToString (number : Binary64) : JsString :=
  if number.value = 0 then [unit '0']
  else if number.value < 0 then unit '-' :: magnitudeText (-number.value)
  else magnitudeText number.value

theorem decimalAt_spec {precision : ℕ} {digits : ℕ} {exponent : ℤ}
    (found : decimalAt value precision = some (digits, exponent))
    : 0 < digits ∧ roundBinary64 (digits * 10 ^ exponent) = some value := by
  unfold decimalAt at found
  dsimp only at found
  obtain ⟨candidate, head, same⟩ := Option.map_eq_some_iff.mp found
  have member := List.mem_of_mem_head? (Option.mem_def.mpr head)
  have valid := (List.mem_filter.mp member).2
  simp only [decide_eq_true_eq] at valid
  split at same
  · rename_i power
    obtain ⟨rfl, rfl⟩ := Prod.mk.inj same
    refine ⟨Nat.one_pos, ?_⟩
    rw [← valid.2, power]
    congr 1
    push_cast
    rw [one_mul, zpow_add₀ (by norm_num), zpow_natCast, mul_comm]
  · obtain ⟨rfl, rfl⟩ := Prod.mk.inj same
    exact valid

theorem shortestDecimal_spec {digits : ℕ} {exponent : ℤ}
    (found : shortestDecimal value = some (digits, exponent))
    : 0 < digits ∧ roundBinary64 (digits * 10 ^ exponent) = some value := by
  obtain ⟨index, _, at_⟩ := List.exists_of_findSome?_eq_some found
  exact decimalAt_spec at_

/-- A decimal with enough digits is exact. -/
theorem decimalAt_exact (positive : 0 < value) (representable : roundBinary64 value = some value)
    {precision digits : ℕ} (exact : value = digits * 10 ^ (Int.log 10 value + 1 - precision : ℤ))
    : (decimalAt value precision).isSome := by
  have scale : (0 : ℚ) < 10 ^ (Int.log 10 value + 1 - precision : ℤ) := by positivity
  have quotient : value / 10 ^ (Int.log 10 value + 1 - precision : ℤ) = ((digits : ℤ) : ℚ) := by
    rw [div_eq_iff scale.ne', Int.cast_natCast]
    exact exact
  have nonzero : 0 < digits := by
    rcases Nat.eq_zero_or_pos digits with zero | nonzero
    · rw [zero, Nat.cast_zero, zero_mul] at exact
      exact absurd exact positive.ne'
    · exact nonzero
  unfold decimalAt
  dsimp only
  rw [quotient, roundHalfEven_intCast, Int.toNat_natCast, List.filter_cons_of_pos]
  · rfl
  · rw [← exact]
    exact decide_eq_true ⟨nonzero, representable⟩

/-- A multiple of a power of one half is a decimal with as many places. -/
theorem exists_decimal (positive : 0 < value) {places : ℕ} {multiple : ℤ}
    (whole : value * 2 ^ places = multiple)
    : ∃ digits : ℕ, 0 < digits ∧ value = digits * 10 ^ (-places : ℤ) := by
  have positiveMultiple : 0 < multiple := by
    have : (0 : ℚ) < multiple := whole ▸ by positivity
    exact_mod_cast this
  obtain ⟨count, same⟩ := Int.eq_ofNat_of_zero_le positiveMultiple.le
  refine ⟨count * 5 ^ places, Nat.mul_pos (by omega) (by positivity), ?_⟩
  have spread : value = count / 2 ^ places := by
    rw [eq_div_iff (by positivity), whole, same, Int.cast_natCast]
  have ten : (10 : ℚ) ^ places = 5 ^ places * 2 ^ places := by rw [← mul_pow]; norm_num
  rw [spread, zpow_neg, zpow_natCast, ten]
  push_cast
  field_simp

/-- Such a decimal has no digit before that place. -/
theorem neg_places_le_log (positive : 0 < value) {places digits : ℕ} (nonzero : 0 < digits)
    (exact : value = digits * 10 ^ (-places : ℤ))
    : -places ≤ Int.log 10 value := by
  rw [← Int.zpow_le_iff_le_log (by norm_num) positive]
  have one : (1 : ℚ) ≤ digits := by exact_mod_cast nonzero
  calc ((10 : ℕ) : ℚ) ^ (-places : ℤ) = 1 * 10 ^ (-places : ℤ) := by norm_num
    _ ≤ digits * 10 ^ (-places : ℤ) := by gcongr
    _ = value := exact.symm

/-- The search for the shortest decimal ends. -/
theorem shortestDecimal_isSome (positive : 0 < value)
    (representable : roundBinary64 value = some value)
    : (shortestDecimal value).isSome := by
  obtain ⟨multiple, whole⟩ := exists_mul_two_pow ⟨value, representable⟩
  obtain ⟨digits, nonzero, exact⟩ := exists_decimal positive whole
  have least := neg_places_le_log positive nonzero exact
  unfold shortestDecimal
  rw [List.findSome?_isSome_iff]
  refine ⟨(Int.log 10 value + 1074).toNat, List.mem_range.mpr (by omega), ?_⟩
  apply decimalAt_exact positive representable
  have place
      : (Int.log 10 value + 1 - (((Int.log 10 value + 1074).toNat + 1 : ℕ) : ℤ))
        = -((1074 : ℕ) : ℤ) := by
    omega
  rw [place]
  exact exact

/-- A positive number is laid out as a well-formed decimal that rounds to it. -/
theorem magnitudeText_decimal (positive : 0 < value)
    (representable : roundBinary64 value = some value)
    : ∃ decimal : Decimal,
        magnitudeText value = decimal.text
        ∧ decimal.WellFormed
        ∧ roundBinary64 decimal.value = some value := by
  obtain ⟨⟨digits, exponent⟩, found⟩ :=
    Option.isSome_iff_exists.mp (shortestDecimal_isSome positive representable)
  obtain ⟨nonzero, rounds⟩ := shortestDecimal_spec found
  refine ⟨layout (decimalText digits) (exponent + (decimalText digits).length), ?_, ?_, ?_⟩
  · rw [magnitudeText, found]
  · exact layout_wellFormed _ (isDigit_decimalText digits) (decimalText_ne_nil digits)
      (head?_decimalText nonzero.ne')
  · rw [layout_value (decimalText_ne_nil digits), decimalValue_decimalText,
      Int.add_sub_cancel]
    exact rounds

end Numbers

section ReadingNumbers

/-- A number as a program can hold one; the finite ones but for negative zero are exact. -/
inductive JsNumber where
  | finite (value : Binary64)
  | negativeZero
  | infinite (negative : Bool)
  | nan
deriving DecidableEq

/-- The number nearest to a decimal with a sign. -/
def JsNumber.ofDecimal (negative : Bool) (magnitude : ℚ) : JsNumber :=
  match rounding : roundBinary64 magnitude with
  | none => .infinite negative
  | some rounded =>
      let number : Binary64 := ⟨rounded, roundBinary64_idem rounding⟩
      if negative then
        if rounded = 0 then .negativeZero else .finite number.neg
      else .finite number

/-- Read the text of one number. -/
def readNumber (token : JsString) : Option JsNumber :=
  let negative := decide (token.head? = some (unit '-'))
  (readDecimal (if negative then token.tail else token)).map fun decimal =>
    .ofDecimal negative decimal.value

theorem JsNumber.ofDecimal_unsigned {magnitude value : ℚ}
    (rounds : roundBinary64 magnitude = some value)
    : JsNumber.ofDecimal false magnitude = .finite ⟨value, roundBinary64_idem rounds⟩ := by
  unfold JsNumber.ofDecimal
  split
  · rename_i overflow
    cases rounds.symm.trans overflow
  · rename_i rounded same
    obtain rfl := Option.some.inj (same.symm.trans rounds)
    rfl

theorem JsNumber.ofDecimal_negative {magnitude value : ℚ}
    (rounds : roundBinary64 magnitude = some value) (nonzero : value ≠ 0)
    : JsNumber.ofDecimal true magnitude
      = .finite (Binary64.mk value (roundBinary64_idem rounds)).neg := by
  unfold JsNumber.ofDecimal
  split
  · rename_i overflow
    cases rounds.symm.trans overflow
  · rename_i rounded same
    obtain rfl := Option.some.inj (same.symm.trans rounds)
    simp [nonzero]

theorem readDecimal_magnitudeText {value : ℚ} (positive : 0 < value)
    (representable : roundBinary64 value = some value)
    : ∃ decimal : Decimal,
        readDecimal (magnitudeText value) = some decimal
        ∧ roundBinary64 decimal.value = some value := by
  obtain ⟨decimal, text, formed, rounds⟩ := magnitudeText_decimal positive representable
  exact ⟨decimal, text ▸ readDecimal_text formed, rounds⟩

/-- The text of a positive number starts with a digit. -/
theorem head?_magnitudeText {value : ℚ} (positive : 0 < value)
    (representable : roundBinary64 value = some value)
    : ∃ first, (magnitudeText value).head? = some first ∧ isDigit first = true := by
  obtain ⟨decimal, text, formed, -⟩ := magnitudeText_decimal positive representable
  obtain ⟨first, rest, same⟩ := List.exists_cons_of_ne_nil formed.nonempty
  refine ⟨first, ?_, formed.whole first (same ▸ List.mem_cons_self)⟩
  rw [text, Decimal.text, List.head?_append_of_ne_nil _ formed.nonempty, same]
  rfl

/-- A finite number is read back from its text. -/
theorem readNumber_numberToString (number : Binary64)
    : readNumber (numberToString number) = some (.finite number) := by
  obtain ⟨value, representable⟩ := number
  unfold numberToString
  dsimp only
  rcases lt_trichotomy value 0 with negative | zero | positive
  · have opposite : roundBinary64 (-value) = some (-value) := by
      rw [roundBinary64_neg, representable]
      rfl
    obtain ⟨decimal, read, rounds⟩ :=
      readDecimal_magnitudeText (Left.neg_pos_iff.mpr negative) opposite
    rw [if_neg negative.ne, if_pos negative, readNumber]
    simp only [List.head?_cons, decide_true, if_true, List.tail_cons, read, Option.map_some,
      JsNumber.ofDecimal_negative rounds (neg_ne_zero.mpr negative.ne)]
    congr 2
    exact Binary64.ext (neg_neg value)
  · have read : readDecimal [unit '0'] = some ⟨[unit '0'], [], none⟩ := by decide
    have rounds : roundBinary64 (Decimal.value ⟨[unit '0'], [], none⟩) = some value := by
      rw [zero] at representable ⊢
      simpa [Decimal.value, show decimalValue [unit '0'] = 0 from rfl] using representable
    have unsigned : [unit '0'].head? ≠ some (unit '-') := by decide
    rw [if_pos zero, readNumber]
    simp only [unsigned, decide_false, Bool.false_eq_true, if_false, read, Option.map_some,
      JsNumber.ofDecimal_unsigned rounds]
  · obtain ⟨decimal, read, rounds⟩ := readDecimal_magnitudeText positive representable
    obtain ⟨first, head, digit⟩ := head?_magnitudeText positive representable
    have unsigned : (magnitudeText value).head? ≠ some (unit '-') := by
      rw [head]
      intro minus
      rw [Option.some.inj minus] at digit
      cases digit
    rw [if_neg positive.ne', if_neg positive.le.not_gt, readNumber]
    simp only [unsigned, decide_false, Bool.false_eq_true, if_false, read, Option.map_some,
      JsNumber.ofDecimal_unsigned rounds]

/-- A code unit that a number may contain. -/
def isNumberUnit (other : CodeUnit) : Bool :=
  isDigit other || (units "-+.eE").contains other

theorem Decimal.WellFormed.units {decimal : Decimal} (formed : decimal.WellFormed)
    : ∀ unit ∈ decimal.text, isNumberUnit unit = true := by
  have digit (other : CodeUnit) (decimal : isDigit other = true) : isNumberUnit other = true := by
    rw [isNumberUnit, decimal]
    rfl
  intro other member
  rcases List.mem_append.mp member with whole | after
  · exact digit other (formed.whole other whole)
  · rcases List.mem_append.mp after with fraction | exponent
    · split at fraction
      · cases fraction
      · rcases List.mem_cons.mp fraction with point | fraction
        · rw [point]
          decide
        · exact digit other (formed.fraction other fraction)
    · cases scale : decimal.exponent with
      | none =>
          rw [scale] at exponent
          cases exponent
      | some power =>
          rw [scale] at exponent
          rcases List.mem_cons.mp exponent with mark | exponent
          · rw [mark]
            decide
          · rcases List.mem_cons.mp exponent with sign | exponent
            · rw [sign]
              split <;> decide
            · exact digit other (isDigit_decimalText _ other exponent)

/-- The text of a number contains nothing else. -/
theorem numberToString_units (number : Binary64)
    : ∀ unit ∈ numberToString number, isNumberUnit unit = true := by
  obtain ⟨value, representable⟩ := number
  unfold numberToString
  dsimp only
  rcases lt_trichotomy value 0 with negative | zero | positive
  · have opposite : roundBinary64 (-value) = some (-value) := by
      rw [roundBinary64_neg, representable]
      rfl
    obtain ⟨decimal, text, formed, -⟩ :=
      magnitudeText_decimal (Left.neg_pos_iff.mpr negative) opposite
    rw [if_neg negative.ne, if_pos negative, text]
    exact List.forall_mem_cons.mpr ⟨by decide, formed.units⟩
  · rw [if_pos zero]
    exact List.forall_mem_singleton.mpr (by decide)
  · obtain ⟨decimal, text, formed, -⟩ := magnitudeText_decimal positive representable
    rw [if_neg positive.ne', if_neg positive.le.not_gt, text]
    exact formed.units

theorem numberToString_ne_nil (number : Binary64) : numberToString number ≠ [] := by
  intro empty
  have read := readNumber_numberToString number
  rw [empty] at read
  cases read

end ReadingNumbers

end SpeculativeAction.Library
