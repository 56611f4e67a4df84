import Mathlib.Tactic.IntervalCases

/-! JSON string literals as text. A literal is self-delimiting: whatever follows it, the
quoted string and the rest of the text can be recovered.
-/

namespace SpeculativeAction.Library.JsonText

def hexDigit (digit : ℕ) : Char :=
  if digit < 10 then Char.ofNat (48 + digit) else Char.ofNat (87 + digit)

/-- The short escape letter of a character, where JSON has one. -/
def shortEscape? (char : Char) : Option Char :=
  if char = '"' then some '"'
  else if char = '\\' then some '\\'
  else if char.toNat = 8 then some 'b'
  else if char.toNat = 9 then some 't'
  else if char.toNat = 10 then some 'n'
  else if char.toNat = 12 then some 'f'
  else if char.toNat = 13 then some 'r'
  else none

/-- One character inside a string literal. -/
def escape (char : Char) : List Char :=
  match shortEscape? char with
  | some letter => ['\\', letter]
  | none =>
      if char.toNat < 32 then
        ['\\', 'u', '0', '0', hexDigit (char.toNat / 16), hexDigit (char.toNat % 16)]
      else
        [char]

def quoteChars (chars : List Char) : List Char := '"' :: (chars.flatMap escape ++ ['"'])

/-- The JSON string literal of a string. -/
def quote (text : String) : String := String.ofList (quoteChars text.toList)

def hexValue (digit : Char) : ℕ := if digit.toNat < 58 then digit.toNat - 48 else digit.toNat - 87

def longValue (letter : Char) : Char :=
  if letter = 'b' then Char.ofNat 8
  else if letter = 't' then Char.ofNat 9
  else if letter = 'n' then Char.ofNat 10
  else if letter = 'f' then Char.ofNat 12
  else if letter = 'r' then Char.ofNat 13
  else letter

/-- Read one possibly escaped character back. -/
def unescape : List Char → Option (Char × List Char)
  | '\\' :: 'u' :: '0' :: '0' :: high :: low :: rest =>
      some (Char.ofNat (16 * hexValue high + hexValue low), rest)
  | '\\' :: letter :: rest => some (longValue letter, rest)
  | char :: rest => some (char, rest)
  | [] => none

/-- An escaped character is read back whatever follows it. -/
theorem unescape_escape (char : Char) (rest : List Char)
    : unescape (escape char ++ rest) = some (char, rest) := by
  by_cases control : char.toNat < 32
  · have value : char = Char.ofNat char.toNat := (Char.ofNat_toNat char).symm
    generalize char.toNat = code at value control
    subst value
    interval_cases code <;> rfl
  · by_cases quoteChar : char = '"'
    · subst quoteChar; rfl
    by_cases backslash : char = '\\'
    · subst backslash; rfl
    have plain : escape char = [char] := by
      have : shortEscape? char = none := by
        simp only [shortEscape?, quoteChar, backslash, ite_false]
        grind
      simp [escape, this, control]
    rw [plain, List.singleton_append, unescape]
    all_goals simp_all

/-- No escaped character starts with the closing quote. -/
theorem escape_ne_quote (char : Char) (rest more : List Char)
    : escape char ++ rest ≠ '"' :: more := by
  intro same
  have read := unescape_escape char rest
  rw [same, show unescape ('"' :: more) = some ('"', more) by cases more <;> rfl] at read
  obtain ⟨rfl, rfl⟩ := Prod.mk.inj (Option.some.inj read)
  have lengths := congrArg List.length same
  simp [show escape '"' = ['\\', '"'] from rfl] at lengths

/-- Two literals that start the same text are the same, and so is what follows them. -/
theorem quoteChars_append_inj {left right rest more : List Char}
    (same : quoteChars left ++ rest = quoteChars right ++ more)
    : left = right ∧ rest = more := by
  simp only [quoteChars, List.cons_append, List.cons.injEq, true_and, List.append_assoc] at same
  induction left generalizing right with
  | nil =>
      cases right with
      | nil => simpa using same
      | cons char chars =>
          simp only [List.flatMap_nil, List.nil_append, List.flatMap_cons, List.append_assoc]
            at same
          exact absurd same.symm (escape_ne_quote char _ _)
  | cons char chars ih =>
      cases right with
      | nil =>
          simp only [List.flatMap_nil, List.nil_append, List.flatMap_cons, List.append_assoc]
            at same
          exact absurd same (escape_ne_quote char _ _)
      | cons other others =>
          simp only [List.flatMap_cons, List.append_assoc] at same
          have read := congrArg unescape same
          rw [unescape_escape, unescape_escape] at read
          obtain ⟨rfl, tail⟩ := Prod.mk.inj (Option.some.inj read)
          obtain ⟨rfl, after⟩ := ih tail
          exact ⟨rfl, after⟩

@[simp] theorem toList_quote (text : String) : (quote text).toList = quoteChars text.toList := by
  simp [quote]

theorem quote_append_inj {left right rest more : String}
    (same : quote left ++ rest = quote right ++ more)
    : left = right ∧ rest = more := by
  have chars := congrArg String.toList same
  simp only [String.toList_append, toList_quote] at chars
  obtain ⟨texts, tails⟩ := quoteChars_append_inj chars
  exact ⟨String.toList_inj.mp texts, String.toList_inj.mp tails⟩

end SpeculativeAction.Library.JsonText
