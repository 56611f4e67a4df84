import SpeculativeAction.Library.NumberText

/-! String literals of JSON over UTF-16 code units: how a string is quoted, surrogates
without their partner included, and how a literal is read back.
-/

namespace SpeculativeAction.Library

section Quoting

def isLeadSurrogate (unit : CodeUnit) : Bool := decide (55296 ≤ unit.val ∧ unit.val ≤ 56319)

def isTrailSurrogate (unit : CodeUnit) : Bool := decide (56320 ≤ unit.val ∧ unit.val ≤ 57343)

def hexUnit (digit : ℕ) : CodeUnit :=
  codeUnit (if digit < 10 then 48 + digit else 87 + digit)

/-- The letter of a short escape, where there is one. -/
def escapeLetter? (other : CodeUnit) : Option CodeUnit :=
  if other = unit '"' then some (unit '"')
  else if other = unit '\\' then some (unit '\\')
  else if other.val = 8 then some (unit 'b')
  else if other.val = 9 then some (unit 't')
  else if other.val = 10 then some (unit 'n')
  else if other.val = 12 then some (unit 'f')
  else if other.val = 13 then some (unit 'r')
  else none

/-- One code unit that is not half of a surrogate pair, inside a literal. -/
def escapeUnit (other : CodeUnit) : JsString :=
  match escapeLetter? other with
  | some letter => [unit '\\', letter]
  | none =>
      if other.val < 32 ∨ isLeadSurrogate other ∨ isTrailSurrogate other then
        [unit '\\', unit 'u', hexUnit (other.val / 4096), hexUnit (other.val / 256 % 16),
          hexUnit (other.val / 16 % 16), hexUnit (other.val % 16)]
      else [other]

/-- The inside of a literal; a surrogate pair stays as it is. -/
def quoteUnits : JsString → JsString
  | [] => []
  | [last] => escapeUnit last
  | first :: second :: rest =>
      if isLeadSurrogate first ∧ isTrailSurrogate second then
        first :: second :: quoteUnits rest
      else escapeUnit first ++ quoteUnits (second :: rest)

/-- `QuoteJSONString`. -/
def quote (text : JsString) : JsString := unit '"' :: (quoteUnits text ++ [unit '"'])

end Quoting

section Reading

variable {other : CodeUnit} {fuel : ℕ}

def hexValue? (other : CodeUnit) : Option ℕ :=
  if isDigit other then some (digitValue other)
  else if 97 ≤ other.val ∧ other.val ≤ 102 then some (other.val - 87)
  else if 65 ≤ other.val ∧ other.val ≤ 70 then some (other.val - 55)
  else none

/-- The code unit a short escape stands for. -/
def escapedUnit? (letter : CodeUnit) : Option CodeUnit :=
  if (units "\"\\/").contains letter then some letter
  else if letter = unit 'b' then some (codeUnit 8)
  else if letter = unit 't' then some (codeUnit 9)
  else if letter = unit 'n' then some (codeUnit 10)
  else if letter = unit 'f' then some (codeUnit 12)
  else if letter = unit 'r' then some (codeUnit 13)
  else none

/-- Read four hexadecimal digits. -/
def readHex : JsString → Option (CodeUnit × JsString)
  | first :: second :: third :: fourth :: rest => do
      let first ← hexValue? first
      let second ← hexValue? second
      let third ← hexValue? third
      let fourth ← hexValue? fourth
      some (codeUnit (4096 * first + 256 * second + 16 * third + fourth), rest)
  | _ => none

/-- Read one code unit of a literal; control characters may not stand for themselves. -/
def readUnit : JsString → Option (CodeUnit × JsString)
  | [] => none
  | first :: rest =>
      if first = unit '\\' then
        match rest with
        | [] => none
        | letter :: rest =>
            if letter = unit 'u' then readHex rest
            else (escapedUnit? letter).map fun other => (other, rest)
      else if first.val < 32 then none
      else some (first, rest)

/-- Read a literal after its opening quote. -/
def readUnits : ℕ → JsString → Option (JsString × JsString)
  | _, [] => none
  | 0, _ => none
  | fuel + 1, first :: rest =>
      if first = unit '"' then some ([], rest)
      else do
        let (other, rest) ← readUnit (first :: rest)
        let (text, rest) ← readUnits fuel rest
        some (other :: text, rest)

theorem hexValue?_hexUnit {digit : ℕ} (small : digit < 16)
    : hexValue? (hexUnit digit) = some digit := by
  interval_cases digit <;> rfl

/-- Four hexadecimal digits name their code unit. -/
theorem readHex_hexUnits (other : CodeUnit) (rest : JsString)
    : readHex (hexUnit (other.val / 4096) :: hexUnit (other.val / 256 % 16)
          :: hexUnit (other.val / 16 % 16) :: hexUnit (other.val % 16) :: rest)
      = some (other, rest) := by
  have bound := other.isLt
  have sum
      : 4096 * (other.val / 4096) + 256 * (other.val / 256 % 16)
          + 16 * (other.val / 16 % 16) + other.val % 16
        = other.val := by
    omega
  simp only [readHex, hexValue?_hexUnit (show other.val / 4096 < 16 by omega),
    hexValue?_hexUnit (show other.val / 256 % 16 < 16 by omega),
    hexValue?_hexUnit (show other.val / 16 % 16 < 16 by omega),
    hexValue?_hexUnit (show other.val % 16 < 16 by omega), Option.bind_eq_bind,
    Option.bind_some, sum]
  congr
  exact Fin.ofNat_val_eq_self other

/-- A short escape names its code unit. -/
theorem escapedUnit?_escapeLetter {letter : CodeUnit} (escaped : escapeLetter? other = some letter)
    : letter ≠ unit 'u' ∧ escapedUnit? letter = some other := by
  have named (value : CodeUnit) (same : other.val = value.val) : value = other :=
    (Fin.ext same).symm
  unfold escapeLetter? at escaped
  split at escaped
  · rename_i same
    rw [← Option.some.inj escaped, same]
    exact ⟨by decide, by decide⟩
  split at escaped
  · rename_i same
    rw [← Option.some.inj escaped, same]
    exact ⟨by decide, by decide⟩
  split at escaped
  · rename_i same
    obtain rfl := Option.some.inj escaped
    exact ⟨by decide, named 8 same ▸ by decide⟩
  split at escaped
  · rename_i same
    obtain rfl := Option.some.inj escaped
    exact ⟨by decide, named 9 same ▸ by decide⟩
  split at escaped
  · rename_i same
    obtain rfl := Option.some.inj escaped
    exact ⟨by decide, named 10 same ▸ by decide⟩
  split at escaped
  · rename_i same
    obtain rfl := Option.some.inj escaped
    exact ⟨by decide, named 12 same ▸ by decide⟩
  split at escaped
  · rename_i same
    obtain rfl := Option.some.inj escaped
    exact ⟨by decide, named 13 same ▸ by decide⟩
  · cases escaped

/-- A code unit that stands for itself. -/
theorem readUnit_plain (control : ¬other.val < 32) (plain : other ≠ unit '\\') (rest : JsString)
    : readUnit (other :: rest) = some (other, rest) := by
  simp only [readUnit, if_neg plain, if_neg control]

theorem readUnit_escapeUnit (other : CodeUnit) (rest : JsString)
    : readUnit (escapeUnit other ++ rest) = some (other, rest) := by
  unfold escapeUnit
  cases escaped : escapeLetter? other with
  | some letter =>
      obtain ⟨short, named⟩ := escapedUnit?_escapeLetter escaped
      simp [readUnit, short, named]
  | none =>
      dsimp only
      split
      · simp only [List.cons_append, List.nil_append, readUnit, if_true, readHex_hexUnits]
      · rename_i plain
        refine readUnit_plain (fun control => plain (.inl control)) ?_ rest
        intro same
        rw [same] at escaped
        cases escaped

/-- What one code unit is written as does not start with the closing quote. -/
theorem head?_escapeUnit (other : CodeUnit)
    : ∃ first rest, escapeUnit other = first :: rest ∧ first ≠ unit '"' := by
  unfold escapeUnit
  cases escaped : escapeLetter? other with
  | some letter => exact ⟨_, _, rfl, by decide⟩
  | none =>
      dsimp only
      split
      · exact ⟨_, _, rfl, by decide⟩
      · refine ⟨_, _, rfl, ?_⟩
        intro same
        rw [same] at escaped
        cases escaped

/-- One step of reading a literal. -/
theorem readUnits_step {first : CodeUnit} {tail rest text after : JsString}
    (opened : first ≠ unit '"') (read : readUnit (first :: tail) = some (other, rest))
    (remaining : readUnits fuel rest = some (text, after))
    : readUnits (fuel + 1) (first :: tail) = some (other :: text, after) := by
  simp only [readUnits, if_neg opened, read, remaining, Option.bind_eq_bind, Option.bind_some]

theorem readUnits_escapeUnit (other : CodeUnit) {rest text after : JsString}
    (remaining : readUnits fuel rest = some (text, after))
    : readUnits (fuel + 1) (escapeUnit other ++ rest) = some (other :: text, after) := by
  obtain ⟨first, tail, written, opened⟩ := head?_escapeUnit other
  have read := readUnit_escapeUnit other rest
  rw [written, List.cons_append] at read ⊢
  exact readUnits_step opened read remaining

/-- A surrogate that is left as it is. -/
theorem readUnits_surrogate (surrogate : 55296 ≤ other.val) {rest text after : JsString}
    (remaining : readUnits fuel rest = some (text, after))
    : readUnits (fuel + 1) (other :: rest) = some (other :: text, after) := by
  have high (low : CodeUnit) (below : low.val < 55296) : other ≠ low := by
    intro same
    rw [same] at surrogate
    omega
  apply readUnits_step (high _ (by decide)) (readUnit_plain (by omega) (high _ (by decide)) _)
  exact remaining

/-- A quoted string is read back, whatever follows it. -/
theorem readUnits_quoteUnits (text rest : JsString) (enough : text.length < fuel)
    : readUnits fuel (quoteUnits text ++ unit '"' :: rest) = some (text, rest) := by
  have closed {fuel : ℕ} (enough : 0 < fuel)
      : readUnits fuel (unit '"' :: rest) = some ([], rest) := by
    obtain ⟨fuel, rfl⟩ := Nat.exists_eq_succ_of_ne_zero enough.ne'
    simp only [readUnits, if_true]
  induction text using quoteUnits.induct generalizing fuel with
  | case1 => exact closed enough
  | case2 last =>
      obtain ⟨fuel, rfl⟩ := Nat.exists_eq_add_of_lt enough
      rw [quoteUnits]
      exact readUnits_escapeUnit last (closed (by simp))
  | case3 first second others pair ih =>
      obtain ⟨fuel, rfl⟩ := Nat.exists_eq_add_of_lt enough
      simp only [isLeadSurrogate, isTrailSurrogate, decide_eq_true_eq] at pair
      have remaining := @ih (others.length + 1 + fuel) (by omega)
      rw [quoteUnits, if_pos (by simpa [isLeadSurrogate, isTrailSurrogate] using pair)]
      have length
          : (first :: second :: others).length + fuel + 1
            = others.length + 1 + fuel + 1 + 1 := by
        simp only [List.length_cons]
        omega
      rw [length]
      exact readUnits_surrogate pair.1.1 (readUnits_surrogate (by omega) remaining)
  | case4 first second others single ih =>
      obtain ⟨fuel, rfl⟩ := Nat.exists_eq_add_of_lt enough
      have remaining := @ih (others.length + 1 + fuel + 1) (by simp)
      have length
          : (first :: second :: others).length + fuel + 1
            = others.length + 1 + fuel + 1 + 1 := by
        simp only [List.length_cons]
        omega
      rw [quoteUnits, if_neg single, List.append_assoc, length]
      exact readUnits_escapeUnit first remaining

/-- Quoting never shortens a string. -/
theorem length_le_quoteUnits (text : JsString) : text.length ≤ (quoteUnits text).length := by
  have escaped (other : CodeUnit) : 1 ≤ (escapeUnit other).length := by
    obtain ⟨first, tail, written, -⟩ := head?_escapeUnit other
    rw [written]
    exact Nat.succ_le_succ (Nat.zero_le _)
  induction text using quoteUnits.induct with
  | case1 => exact Nat.le_refl _
  | case2 last => exact escaped last
  | case3 first second others pair ih =>
      rw [quoteUnits, if_pos pair]
      simpa using ih
  | case4 first second others single ih =>
      rw [quoteUnits, if_neg single, List.length_append]
      have := escaped first
      simp only [List.length_cons] at ih ⊢
      omega

/-- A literal is read back with the fuel its text gives. -/
theorem readUnits_quote (text rest : JsString)
    : readUnits ((quoteUnits text ++ unit '"' :: rest).length + 1)
        (quoteUnits text ++ unit '"' :: rest)
      = some (text, rest) := by
  apply readUnits_quoteUnits
  have := length_le_quoteUnits text
  rw [List.length_append]
  omega

end Reading

end SpeculativeAction.Library
