import SpeculativeAction.Library.JsonString
import SpeculativeAction.Library.OrderedMap

/-! JSON texts of data trees: `JSON.parse`, and that it reads back every tree of JSON values
from the text that lists its parts in order.
-/

namespace SpeculativeAction.Library

/-- A tree of plain data; an object lists its own enumerable fields as they were created. -/
inductive Data where
  | undefined
  | null
  | bool (value : Bool)
  | number (value : JsNumber)
  | string (value : JsString)
  | array (items : List Data)
  | object (fields : List (JsString × Data))

namespace Data

mutual

/-- A tree of JSON values: the numbers are finite, no slot is undefined and no key repeats. -/
def isJson : Data → Bool
  | .null | .bool _ | .string _ | .number (.finite _) => true
  | .undefined | .number _ => false
  | .array items => itemsJson items
  | .object fields => decide (fields.map Prod.fst).Nodup && fieldsJson fields

def itemsJson : List Data → Bool
  | [] => true
  | item :: rest => item.isJson && itemsJson rest

def fieldsJson : List (JsString × Data) → Bool
  | [] => true
  | field :: rest => fieldJson field && fieldsJson rest

def fieldJson : JsString × Data → Bool
  | (_, value) => value.isJson

end

theorem itemsJson_iff {items : List Data}
    : itemsJson items = true ↔ ∀ item ∈ items, item.isJson = true := by
  induction items with
  | nil => simp [itemsJson]
  | cons item rest ih => simp [itemsJson, ih]

theorem fieldsJson_iff {fields : List (JsString × Data)}
    : fieldsJson fields = true ↔ ∀ field ∈ fields, field.2.isJson = true := by
  induction fields with
  | nil => simp [fieldsJson]
  | cons field rest ih =>
      obtain ⟨key, value⟩ := field
      simp [fieldsJson, fieldJson, ih]

/-- Induction over a tree with the property of every child at hand. -/
theorem induct {motive : Data → Prop} (undefined : motive .undefined) (null : motive .null)
    (bool : ∀ value, motive (.bool value)) (number : ∀ value, motive (.number value))
    (string : ∀ value, motive (.string value))
    (array : ∀ items, (∀ item ∈ items, motive item) → motive (.array items))
    (object
      : ∀ fields : List (JsString × Data),
          (∀ field ∈ fields, motive field.2) → motive (.object fields))
    (value : Data)
    : motive value := by
  cases value with
  | undefined => exact undefined
  | null => exact null
  | bool value => exact bool value
  | number value => exact number value
  | string value => exact string value
  | array items =>
      apply array items
      intro item member
      have smaller := List.sizeOf_lt_of_mem member
      exact induct undefined null bool number string array object item
  | object fields =>
      apply object fields
      intro field member
      have smaller := List.sizeOf_lt_of_mem member
      have part : sizeOf field.2 < sizeOf field := by
        cases field
        simp
      exact induct undefined null bool number string array object field.2
termination_by value
decreasing_by
  · simp
    omega
  · simp
    omega

end Data

section Writing

/-- Join texts with commas. -/
def joinComma : List JsString → JsString
  | [] => []
  | [text] => text
  | text :: rest => text ++ unit ',' :: joinComma rest

/-- `JSON.stringify` of a number. -/
def JsNumber.text : JsNumber → JsString
  | .finite value => numberToString value
  | .negativeZero => [unit '0']
  | .infinite _ | .nan => units "null"

def boolText (value : Bool) : JsString := units (if value then "true" else "false")

mutual

/-- The JSON text of a tree, its fields in order. -/
def writeData : Data → JsString
  | .undefined | .null => units "null"
  | .bool value => boolText value
  | .number value => value.text
  | .string value => quote value
  | .array items => unit '[' :: (joinComma (writeItems items) ++ [unit ']'])
  | .object fields => unit '\x7b' :: (joinComma (writeFields fields) ++ [unit '\x7d'])

def writeItems : List Data → List JsString
  | [] => []
  | item :: rest => writeData item :: writeItems rest

def writeFields : List (JsString × Data) → List JsString
  | [] => []
  | field :: rest => writeField field :: writeFields rest

def writeField : JsString × Data → JsString
  | (key, value) => quote key ++ unit ':' :: writeData value

end

end Writing

section Parsing

def isSpace (other : CodeUnit) : Bool := (units "\t\n\r ").contains other

/-- The next code unit that is not white space. -/
def nextUnit (text : JsString) : Option (CodeUnit × JsString) :=
  match text.dropWhile isSpace with
  | [] => none
  | first :: rest => some (first, rest)

/-- Read a number or one of the three names. -/
def parseAtom (text : JsString) : Option (Data × JsString) :=
  match text.dropPrefix? (units "null"), text.dropPrefix? (units "true"),
      text.dropPrefix? (units "false") with
  | some rest, _, _ => some (.null, rest)
  | _, some rest, _ => some (.bool true, rest)
  | _, _, some rest => some (.bool false, rest)
  | _, _, _ =>
      (readNumber (text.takeWhile isNumberUnit)).map fun number =>
        (.number number, text.dropWhile isNumberUnit)

mutual

/-- Read one value; the fuel bounds the depth and the length of what is read. -/
def parseValue : ℕ → JsString → Option (Data × JsString)
  | 0, _ => none
  | fuel + 1, text => do
      let (first, rest) ← nextUnit text
      if first = unit '\x7b' then
        let (next, more) ← nextUnit rest
        if next = unit '\x7d' then some (.object [], more)
        else
          let (fields, more) ← parseFields fuel [] rest
          some (.object fields, more)
      else if first = unit '[' then
        let (next, more) ← nextUnit rest
        if next = unit ']' then some (.array [], more)
        else
          let (items, more) ← parseItems fuel rest
          some (.array items, more)
      else if first = unit '"' then
        let (value, more) ← readUnits (rest.length + 1) rest
        some (.string value, more)
      else parseAtom (first :: rest)

/-- Read the items of an array up to its end. -/
def parseItems : ℕ → JsString → Option (List Data × JsString)
  | 0, _ => none
  | fuel + 1, text => do
      let (item, rest) ← parseValue fuel text
      let (next, more) ← nextUnit rest
      if next = unit ',' then
        let (items, rest) ← parseItems fuel more
        some (item :: items, rest)
      else if next = unit ']' then some ([item], more)
      else none

/-- Read the fields of an object up to its end; a repeated key keeps its last value. -/
def parseFields
    : ℕ → List (JsString × Data) → JsString → Option (List (JsString × Data) × JsString)
  | 0, _, _ => none
  | fuel + 1, fields, text => do
      let (opening, rest) ← nextUnit text
      if opening = unit '"' then
        let (key, rest) ← readUnits (rest.length + 1) rest
        let (colon, rest) ← nextUnit rest
        if colon = unit ':' then
          let (value, rest) ← parseValue fuel rest
          let fields := OrderedMap.setEntries key value fields
          let (next, more) ← nextUnit rest
          if next = unit ',' then parseFields fuel fields more
          else if next = unit '\x7d' then some (fields, more)
          else none
        else none
      else none

end

/-- `JSON.parse`; none where it throws. -/
def jsonParse (text : JsString) : Option Data := do
  let (value, rest) ← parseValue (text.length + 1) text
  if rest.dropWhile isSpace = [] then some value else none

end Parsing

section RoundTrip

variable {first : CodeUnit} {rest : JsString} {fuel : ℕ} {value : Data}
  {fields : List (JsString × Data)} {tail : JsString} {seen : List (JsString × Data)}

/-- A number cannot go on here. -/
def Ends (text : JsString) : Prop := ∀ next ∈ text.head?, isNumberUnit next = false

theorem ends_cons {next : CodeUnit} (other : isNumberUnit next = false) (rest : JsString)
    : Ends (next :: rest) := by
  intro first head
  rwa [← Option.some.inj head]

theorem nextUnit_cons {next : CodeUnit} (solid : isSpace next = false) (rest : JsString)
    : nextUnit (next :: rest) = some (next, rest) := by
  rw [nextUnit, List.dropWhile_cons_of_neg (by simp [solid])]

/-- A number starts with a digit or a sign. -/
theorem isNumberUnit_head_numberToString (number : Binary64)
    : ∃ first tail,
        numberToString number = first :: tail
        ∧ isNumberUnit first = true := by
  obtain ⟨first, tail, same⟩ := List.exists_cons_of_ne_nil (numberToString_ne_nil number)
  exact ⟨first, tail, same, numberToString_units number first (same ▸ List.mem_cons_self)⟩

/-- No other text starts like a number. -/
theorem ne_of_isNumberUnit {other : CodeUnit} (number : isNumberUnit first = true)
    (different : isNumberUnit other = false)
    : first ≠ other := by
  intro same
  rw [same, different] at number
  cases number

theorem isSpace_of_isNumberUnit (number : isNumberUnit first = true)
    : isSpace first = false := by
  have spaces : (units "\t\n\r ").all (fun other => !isNumberUnit other) = true := by decide
  cases found : isSpace first with
  | false => rfl
  | true =>
      have other := List.all_eq_true.mp spaces first (List.contains_iff_mem.mp found)
      rw [number] at other
      cases other

theorem dropPrefix?_cons_ne {other : CodeUnit} (different : first ≠ other) (rest others : JsString)
    : (first :: rest).dropPrefix? (other :: others) = none := by
  simp [List.dropPrefix?, different]

theorem parseAtom_number (number : Binary64) (ends : Ends rest)
    : parseAtom (numberToString number ++ rest) = some (.number (.finite number), rest) := by
  obtain ⟨first, tail, same, starts⟩ := isNumberUnit_head_numberToString number
  have all := numberToString_units number
  have token : (numberToString number ++ rest).takeWhile isNumberUnit = numberToString number := by
    rw [List.takeWhile_append_of_pos all]
    cases rest with
    | nil => simp
    | cons next rest => simp [ends next rfl]
  have remaining : (numberToString number ++ rest).dropWhile isNumberUnit = rest := by
    rw [List.dropWhile_append_of_pos all]
    cases rest with
    | nil => simp
    | cons next rest => simp [ends next rfl]
  have name (other : CodeUnit) (others : JsString) (different : isNumberUnit other = false)
      : (numberToString number ++ rest).dropPrefix? (other :: others) = none := by
    rw [same, List.cons_append]
    exact dropPrefix?_cons_ne (ne_of_isNumberUnit starts different) _ _
  unfold parseAtom
  rw [show units "null" = unit 'n' :: units "ull" from rfl, name _ _ (by decide),
    show units "true" = unit 't' :: units "rue" from rfl, name _ _ (by decide),
    show units "false" = unit 'f' :: units "alse" from rfl, name _ _ (by decide)]
  dsimp only
  rw [token, remaining, readNumber_numberToString, Option.map_some]

theorem dropPrefix?_append (name rest : JsString) : (name ++ rest).dropPrefix? name = some rest := by
  induction name with
  | nil => cases rest <;> rfl
  | cons first name ih => simpa [List.dropPrefix?] using ih

theorem parseAtom_null (rest : JsString)
    : parseAtom (units "null" ++ rest) = some (.null, rest) := by
  rw [parseAtom, dropPrefix?_append]

theorem parseAtom_bool (value : Bool) (rest : JsString)
    : parseAtom (boolText value ++ rest) = some (.bool value, rest) := by
  have name (other first : CodeUnit) (others tail : JsString) (different : first ≠ other)
      : (first :: tail ++ rest).dropPrefix? (other :: others) = none :=
    dropPrefix?_cons_ne different _ _
  cases value with
  | true =>
      rw [boolText, parseAtom, if_pos rfl, dropPrefix?_append,
        show units "null" = unit 'n' :: units "ull" from rfl,
        show units "true" = unit 't' :: units "rue" from rfl, name _ _ _ _ (by decide)]
  | false =>
      rw [boolText, parseAtom, if_neg Bool.false_ne_true, dropPrefix?_append,
        show units "null" = unit 'n' :: units "ull" from rfl,
        show units "true" = unit 't' :: units "rue" from rfl,
        show units "false" = unit 'f' :: units "alse" from rfl, name _ _ _ _ (by decide),
        name _ _ _ _ (by decide)]

/-- How the text of a tree may start. -/
theorem head_writeData (value : Data) (json : value.isJson = true)
    : ∃ first tail,
        writeData value = first :: tail
        ∧ isSpace first = false
        ∧ first ≠ unit ']' := by
  cases value with
  | undefined => cases json
  | null => exact ⟨_, _, rfl, by decide, by decide⟩
  | bool value => cases value <;> exact ⟨_, _, rfl, by decide, by decide⟩
  | number value =>
      cases value with
      | finite value =>
          obtain ⟨first, tail, same, starts⟩ := isNumberUnit_head_numberToString value
          exact ⟨first, tail, same, isSpace_of_isNumberUnit starts,
            ne_of_isNumberUnit starts (by decide)⟩
      | negativeZero => cases json
      | infinite negative => cases json
      | nan => cases json
  | string value => exact ⟨_, _, rfl, by decide, by decide⟩
  | array items => exact ⟨_, _, rfl, by decide, by decide⟩
  | object fields => exact ⟨_, _, rfl, by decide, by decide⟩

/-- Anything but a container or a string is an atom. -/
theorem parseValue_atom (solid : isSpace first = false) (object : first ≠ unit '\x7b')
    (array : first ≠ unit '[') (string : first ≠ unit '"')
    (read : parseAtom (first :: tail) = some (value, rest))
    : parseValue (fuel + 1) (first :: tail) = some (value, rest) := by
  simp only [parseValue, nextUnit_cons solid, Option.bind_eq_bind, Option.bind_some,
    if_neg object, if_neg array, if_neg string, read]

/-- A further item follows a comma. -/
theorem joinComma_cons {rest : List JsString} (more : rest ≠ []) (text : JsString)
    : joinComma (text :: rest) = text ++ unit ',' :: joinComma rest := by
  cases rest with
  | nil => exact absurd rfl more
  | cons next rest => rfl

theorem setEntries_fresh {key : JsString} (fresh : key ∉ fields.map Prod.fst)
    : OrderedMap.setEntries key value fields = fields ++ [(key, value)] := by
  induction fields with
  | nil => rfl
  | cons field rest ih =>
      have different : field.1 ≠ key := fun same => fresh (same ▸ List.mem_cons_self)
      have later : key ∉ rest.map Prod.fst := fun member => fresh (List.mem_cons_of_mem _ member)
      rw [OrderedMap.setEntries, if_neg different, ih later, List.cons_append]

theorem parseValue_string (value rest : JsString) (fuel : ℕ)
    : parseValue (fuel + 1) (quote value ++ rest) = some (.string value, rest) := by
  have solid : isSpace (unit '"') = false := by decide
  have object : unit '"' ≠ unit '\x7b' := by decide
  have array : unit '"' ≠ unit '[' := by decide
  rw [quote, List.cons_append, List.append_assoc, List.singleton_append]
  simp only [parseValue, nextUnit_cons solid, Option.bind_eq_bind, Option.bind_some,
    if_neg object, if_neg array, if_true, readUnits_quote]

theorem parseValue_emptyArray (fuel : ℕ) (rest : JsString)
    : parseValue (fuel + 1) (unit '[' :: unit ']' :: rest) = some (.array [], rest) := by
  have solid : isSpace (unit '[') = false := by decide
  have object : unit '[' ≠ unit '\x7b' := by decide
  have closing : isSpace (unit ']') = false := by decide
  simp only [parseValue, nextUnit_cons solid, nextUnit_cons closing, Option.bind_eq_bind,
    Option.bind_some, if_neg object, if_true]

theorem parseValue_array {items : List Data} (solid : isSpace first = false)
    (more : first ≠ unit ']') (read : parseItems fuel (first :: tail) = some (items, rest))
    : parseValue (fuel + 1) (unit '[' :: first :: tail) = some (.array items, rest) := by
  have opening : isSpace (unit '[') = false := by decide
  have object : unit '[' ≠ unit '\x7b' := by decide
  simp only [parseValue, nextUnit_cons opening, nextUnit_cons solid, Option.bind_eq_bind,
    Option.bind_some, if_neg object, if_true, if_neg more, read]

theorem parseValue_emptyObject (fuel : ℕ) (rest : JsString)
    : parseValue (fuel + 1) (unit '\x7b' :: unit '\x7d' :: rest) = some (.object [], rest) := by
  have solid : isSpace (unit '\x7b') = false := by decide
  have closing : isSpace (unit '\x7d') = false := by decide
  simp only [parseValue, nextUnit_cons solid, nextUnit_cons closing, Option.bind_eq_bind,
    Option.bind_some, if_true]

theorem parseValue_object (read : parseFields fuel [] (unit '"' :: tail) = some (fields, rest))
    : parseValue (fuel + 1) (unit '\x7b' :: unit '"' :: tail) = some (.object fields, rest) := by
  have opening : isSpace (unit '\x7b') = false := by decide
  have solid : isSpace (unit '"') = false := by decide
  have more : unit '"' ≠ unit '\x7d' := by decide
  simp only [parseValue, nextUnit_cons opening, nextUnit_cons solid, Option.bind_eq_bind,
    Option.bind_some, if_true, if_neg more, read]

theorem parseItems_last {text : JsString} {item : Data}
    (read : parseValue fuel text = some (item, unit ']' :: rest))
    : parseItems (fuel + 1) text = some ([item], rest) := by
  have closing : isSpace (unit ']') = false := by decide
  have last : unit ']' ≠ unit ',' := by decide
  simp only [parseItems, read, nextUnit_cons closing, Option.bind_eq_bind, Option.bind_some,
    if_neg last, if_true]

theorem parseItems_more {text others : JsString} {item : Data} {items : List Data}
    (read : parseValue fuel text = some (item, unit ',' :: others))
    (remaining : parseItems fuel others = some (items, rest))
    : parseItems (fuel + 1) text = some (item :: items, rest) := by
  have comma : isSpace (unit ',') = false := by decide
  simp only [parseItems, read, nextUnit_cons comma, Option.bind_eq_bind, Option.bind_some,
    if_true, remaining]

theorem parseFields_last {key text : JsString} (fresh : key ∉ seen.map Prod.fst)
    (read : parseValue fuel text = some (value, unit '\x7d' :: rest))
    : parseFields (fuel + 1) seen (quote key ++ unit ':' :: text)
      = some (seen ++ [(key, value)], rest) := by
  have quoteMark : isSpace (unit '"') = false := by decide
  have colon : isSpace (unit ':') = false := by decide
  have closing : isSpace (unit '\x7d') = false := by decide
  have last : unit '\x7d' ≠ unit ',' := by decide
  rw [quote, List.cons_append, List.append_assoc, List.singleton_append]
  simp only [parseFields, nextUnit_cons quoteMark, nextUnit_cons colon, nextUnit_cons closing,
    readUnits_quote, read, Option.bind_eq_bind, Option.bind_some, if_true, if_neg last,
    setEntries_fresh fresh]

theorem parseFields_more {key text others : JsString} (fresh : key ∉ seen.map Prod.fst)
    (read : parseValue fuel text = some (value, unit ',' :: others))
    (remaining : parseFields fuel (seen ++ [(key, value)]) others = some (fields, rest))
    : parseFields (fuel + 1) seen (quote key ++ unit ':' :: text) = some (fields, rest) := by
  have quoteMark : isSpace (unit '"') = false := by decide
  have colon : isSpace (unit ':') = false := by decide
  have comma : isSpace (unit ',') = false := by decide
  rw [quote, List.cons_append, List.append_assoc, List.singleton_append]
  simp only [parseFields, nextUnit_cons quoteMark, nextUnit_cons colon, nextUnit_cons comma,
    readUnits_quote, read, Option.bind_eq_bind, Option.bind_some, if_true,
    setEntries_fresh fresh, remaining]

mutual

/-- A tree is read back from its text, whatever follows that is not part of a number; by
induction over the tree.
-/
theorem parseValue_writeData (value : Data) (json : value.isJson = true) {rest : JsString}
    (ends : Ends rest) {fuel : ℕ} (enough : (writeData value).length < fuel)
    : parseValue fuel (writeData value ++ rest) = some (value, rest) := by
  obtain ⟨fuel, rfl⟩ := Nat.exists_eq_succ_of_ne_zero (Nat.ne_of_gt (Nat.zero_lt_of_lt enough))
  cases value with
  | undefined => cases json
  | null =>
      exact parseValue_atom (by decide) (by decide) (by decide) (by decide)
        (parseAtom_null rest)
  | bool value =>
      have read := parseAtom_bool value rest
      cases value with
      | true => exact parseValue_atom (by decide) (by decide) (by decide) (by decide) read
      | false => exact parseValue_atom (by decide) (by decide) (by decide) (by decide) read
  | number value =>
      cases value with
      | finite number =>
          obtain ⟨first, tail, same, starts⟩ := isNumberUnit_head_numberToString number
          have read := parseAtom_number number ends
          have different (other : CodeUnit) (no : isNumberUnit other = false) : first ≠ other :=
            ne_of_isNumberUnit starts no
          rw [writeData, JsNumber.text]
          rw [same, List.cons_append] at read ⊢
          exact parseValue_atom (isSpace_of_isNumberUnit starts) (different _ (by decide))
            (different _ (by decide)) (different _ (by decide)) read
      | negativeZero => cases json
      | infinite negative => cases json
      | nan => cases json
  | string value => exact parseValue_string value rest fuel
  | array items =>
      rw [writeData, List.cons_append, List.append_assoc, List.singleton_append]
      cases items with
      | nil => exact parseValue_emptyArray fuel rest
      | cons item others =>
          have itemJson : item.isJson = true := (Bool.and_eq_true_iff.mp json).1
          obtain ⟨first, tail, same, solid, other⟩ := head_writeData item itemJson
          have length
              : (joinComma (writeItems (item :: others))).length + 1 < fuel := by
            simp only [writeData, List.length_cons, List.length_append, List.length_nil] at enough
            omega
          have read := parseItems_writeItems (item :: others) (List.cons_ne_nil _ _) json rest
            length
          have starts : ∃ more, joinComma (writeItems (item :: others)) = first :: more := by
            cases others with
            | nil => exact ⟨tail, same⟩
            | cons next others =>
                rw [writeItems, joinComma_cons (by simp [writeItems]), same]
                exact ⟨_, rfl⟩
          obtain ⟨more, text⟩ := starts
          rw [text, List.cons_append] at read ⊢
          exact parseValue_array solid other read
  | object fields =>
      rw [writeData, List.cons_append, List.append_assoc, List.singleton_append]
      cases fields with
      | nil => exact parseValue_emptyObject fuel rest
      | cons field others =>
          obtain ⟨distinct, fieldsJson⟩ := Bool.and_eq_true_iff.mp json
          have length
              : (joinComma (writeFields (field :: others))).length + 1 < fuel := by
            simp only [writeData, List.length_cons, List.length_append, List.length_nil] at enough
            omega
          have read := parseFields_writeFields (field :: others) (List.cons_ne_nil _ _)
            fieldsJson [] (of_decide_eq_true distinct) (by simp) rest length
          have starts
              : ∃ more, joinComma (writeFields (field :: others)) = unit '"' :: more := by
            obtain ⟨key, value⟩ := field
            cases others with
            | nil => exact ⟨_, rfl⟩
            | cons next others => exact ⟨_, rfl⟩
          obtain ⟨more, text⟩ := starts
          rw [text, List.cons_append] at read ⊢
          exact parseValue_object read

/-- The items of an array are read back up to its end. -/
theorem parseItems_writeItems (items : List Data) (nonempty : items ≠ [])
    (json : Data.itemsJson items = true) (rest : JsString) {fuel : ℕ}
    (enough : (joinComma (writeItems items)).length + 1 < fuel)
    : parseItems fuel (joinComma (writeItems items) ++ unit ']' :: rest)
      = some (items, rest) := by
  obtain ⟨fuel, rfl⟩ := Nat.exists_eq_succ_of_ne_zero (Nat.ne_of_gt (Nat.zero_lt_of_lt enough))
  cases items with
  | nil => exact absurd rfl nonempty
  | cons item others =>
      obtain ⟨itemJson, othersJson⟩ := Bool.and_eq_true_iff.mp json
      cases others with
      | nil =>
          apply parseItems_last
          apply parseValue_writeData item itemJson (ends_cons (by decide) rest)
          simp only [writeItems, joinComma] at enough
          omega
      | cons next others =>
          rw [writeItems, joinComma_cons (by simp [writeItems])] at enough ⊢
          simp only [List.length_append, List.length_cons] at enough
          rw [List.append_assoc, List.cons_append]
          apply parseItems_more
          · exact parseValue_writeData item itemJson (ends_cons (by decide) _) (by omega)
          · exact parseItems_writeItems (next :: others) (List.cons_ne_nil _ _) othersJson rest
              (by omega)

/-- The fields of an object are read back up to its end. -/
theorem parseFields_writeFields (fields : List (JsString × Data)) (nonempty : fields ≠ [])
    (json : Data.fieldsJson fields = true) (seen : List (JsString × Data))
    (distinct : (fields.map Prod.fst).Nodup)
    (fresh : ∀ key ∈ fields.map Prod.fst, key ∉ seen.map Prod.fst) (rest : JsString) {fuel : ℕ}
    (enough : (joinComma (writeFields fields)).length + 1 < fuel)
    : parseFields fuel seen (joinComma (writeFields fields) ++ unit '\x7d' :: rest)
      = some (seen ++ fields, rest) := by
  obtain ⟨fuel, rfl⟩ := Nat.exists_eq_succ_of_ne_zero (Nat.ne_of_gt (Nat.zero_lt_of_lt enough))
  cases fields with
  | nil => exact absurd rfl nonempty
  | cons field others =>
      obtain ⟨key, value⟩ := field
      obtain ⟨valueJson, othersJson⟩ := Bool.and_eq_true_iff.mp json
      have first : key ∉ seen.map Prod.fst := fresh key List.mem_cons_self
      cases others with
      | nil =>
          simp only [writeFields, joinComma, writeField] at enough ⊢
          simp only [List.length_append, List.length_cons] at enough
          rw [List.append_assoc, List.cons_append]
          apply parseFields_last first
          exact parseValue_writeData value valueJson (ends_cons (by decide) rest) (by omega)
      | cons next others =>
          obtain ⟨keyFresh, othersDistinct⟩ := List.nodup_cons.mp distinct
          rw [writeFields, joinComma_cons (by simp [writeFields]), writeField] at enough ⊢
          simp only [List.length_append, List.length_cons] at enough
          rw [List.append_assoc, List.append_assoc, List.cons_append, List.cons_append]
          apply parseFields_more first
          · exact parseValue_writeData value valueJson (ends_cons (by decide) _) (by omega)
          · have later
                : ∀ other ∈ (next :: others).map Prod.fst,
                    other ∉ (seen ++ [(key, value)]).map Prod.fst := by
              intro other member
              rw [List.map_append, List.mem_append]
              intro early
              rcases early with before | last
              · exact fresh other (List.mem_cons_of_mem _ member) before
              · exact keyFresh (List.mem_singleton.mp last ▸ member)
            have parts : seen ++ (key, value) :: next :: others
                = seen ++ [(key, value)] ++ next :: others := by
              rw [List.append_assoc, List.singleton_append]
            rw [parts]
            exact parseFields_writeFields (next :: others) (List.cons_ne_nil _ _) othersJson
              (seen ++ [(key, value)]) othersDistinct later rest (by omega)

end

/-- `JSON.parse` reads a tree of JSON values back from its text. -/
theorem jsonParse_writeData (json : value.isJson = true)
    : jsonParse (writeData value) = some value := by
  have ends : Ends [] := by
    intro next head
    cases head
  have read := parseValue_writeData value json ends (Nat.lt_add_one (writeData value).length)
  rw [List.append_nil] at read
  have done : ([] : JsString).dropWhile isSpace = [] := rfl
  rw [jsonParse, read, Option.bind_eq_bind, Option.bind_some]
  exact if_pos done

end RoundTrip

end SpeculativeAction.Library
