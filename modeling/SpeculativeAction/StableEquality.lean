import SpeculativeAction.StableStringify

/-! `stableEqual` compares two trees without their texts. It reads a missing key through the
prototype chain, and there `__proto__` is an object: the comparison agrees with the stable
text except where exactly one of two facing objects owns that key.
-/

namespace SpeculativeAction.StableJson

open SpeculativeAction.Library

-- The comparison

section Comparison

local instance lawfulBEqJsString : LawfulBEq JsString := inferInstance

def protoKey : JsString := units "__proto__"

/-- The methods every plain object inherits. -/
def prototypeMethods : List JsString :=
  [
    "constructor", "__defineGetter__", "__defineSetter__", "hasOwnProperty", "__lookupGetter__",
    "__lookupSetter__", "isPrototypeOf", "propertyIsEnumerable", "toString", "valueOf",
    "toLocaleString"
  ].map units

/-- What reading a key gives: own data, or what a plain object inherits. -/
inductive Slot where
  | data (value : Data)
  | method
  | prototype

/-- `Object.prototype` is behind every object but itself. -/
def inherited (key : JsString) (parent : Slot) : Slot :=
  if key = protoKey then parent
  else if key ∈ prototypeMethods then .method
  else .data .undefined

namespace Slot

variable {key : JsString}

def isObject : Slot → Bool
  | .data (.array _) | .data (.object _) | .prototype => true
  | _ => false

/-- The items of an array. -/
def items? : Slot → Option (List Data)
  | .data (.array items) => some items
  | _ => none

/-- `Object.keys`; those of `Object.prototype` are not enumerable. -/
def keys : Slot → List JsString
  | .data (.object fields) => fields.map Prod.fst
  | _ => []

/-- `record[key]`. -/
def read : Slot → JsString → Slot
  | .data (.object fields), key =>
      if key ∈ fields.map Prod.fst then .data (fieldOf fields key) else inherited key .prototype
  | _, key => inherited key (.data .null)

/-- `JSON.stringify` of what is not an object; functions have no text. -/
def text : Slot → Option JsString
  | .data value => serialize value
  | .method => none
  | .prototype => some (units "{}")

/-- The text that is compared; a slot of an array always has one. -/
def slotText (slot : Slot) (arraySlot : Bool) : Option JsString :=
  slot.text.or (if arraySlot then some (units "null") else none)

/-- How much there is to compare. -/
noncomputable def weight : Slot → ℕ
  | .data value => sizeOf value
  | .method | .prototype => 1

theorem weight_inherited (key : JsString) {parent : Slot} (light : parent.weight = 1)
    : (inherited key parent).weight = 1 := by
  unfold inherited
  split
  · exact light
  · split
    · rfl
    · simp [weight]

theorem weight_pos (slot : Slot) : 1 ≤ slot.weight := by
  cases slot with
  | data value => cases value <;> simp [weight]
  | method | prototype => exact Nat.le_refl 1

theorem weight_fieldOf {fields : List (JsString × Data)} (own : key ∈ fields.map Prod.fst)
    : sizeOf (fieldOf fields key) < sizeOf (Data.object fields) := by
  obtain ⟨field, member, rfl⟩ := List.mem_map.mp own
  unfold fieldOf
  cases found : fields.find? (fun other => decide (other.1 = field.1)) with
  | none => exact absurd (decide_eq_true rfl) (List.find?_eq_none.mp found field member)
  | some other =>
      have smaller := List.sizeOf_lt_of_mem (List.mem_of_find?_eq_some found)
      obtain ⟨key, value⟩ := other
      simp only [Prod.mk.sizeOf_spec] at smaller
      simp only [Option.map_some, Option.getD_some, Data.object.sizeOf_spec]
      omega

/-- Reading an own key gives less to compare. -/
theorem weight_read_own {slot : Slot} (own : key ∈ slot.keys)
    : (slot.read key).weight < slot.weight := by
  cases slot with
  | data value =>
      cases value with
      | object fields =>
          have own' : key ∈ fields.map Prod.fst := own
          rw [read, if_pos own']
          exact weight_fieldOf own'
      | _ => exact absurd own List.not_mem_nil
  | method | prototype => exact absurd own List.not_mem_nil

theorem weight_read_le (slot : Slot) (key : JsString)
    : (slot.read key).weight ≤ slot.weight := by
  by_cases own : key ∈ slot.keys
  · exact Nat.le_of_lt (weight_read_own own)
  · have light : (slot.read key).weight = 1 := by
      cases slot with
      | data value =>
          cases value with
          | object fields =>
              have missing : key ∉ fields.map Prod.fst := own
              rw [read, if_neg missing]
              exact weight_inherited key rfl
          | _ => exact weight_inherited key rfl
      | method | prototype => exact weight_inherited key rfl
    rw [light]
    exact weight_pos slot

/-- Of two facing objects, one owns each key that is compared. -/
theorem weight_reads {left right : Slot} (own : key ∈ left.keys ++ right.keys)
    : (left.read key).weight + (right.read key).weight < left.weight + right.weight := by
  rcases List.mem_append.mp own with own | own
  · exact Nat.add_lt_add_of_lt_of_le (weight_read_own own) (weight_read_le right key)
  · exact Nat.add_lt_add_of_le_of_lt (weight_read_le left key) (weight_read_own own)

theorem weight_item {slot : Slot} {items : List Data} (array : slot.items? = some items) (index : ℕ)
    : (Slot.data (itemOf items index)).weight < slot.weight := by
  have shape : slot = .data (.array items) := by
    cases slot with
    | data value =>
        cases value with
        | array _ => exact congrArg (fun items => Slot.data (.array items)) (Option.some.inj array)
        | _ => cases array
    | method | prototype => cases array
  rw [shape]
  simp only [weight, Data.array.sizeOf_spec, itemOf]
  cases present : items[index]? with
  | none => cases items <;> simp
  | some item =>
      have smaller := List.sizeOf_lt_of_mem (List.mem_of_getElem? present)
      simp only [Option.getD_some]
      omega

end Slot

mutual

/-- Facing arrays agree item by item, facing records on every key of either. -/
def equalObject (left right : Slot) : Bool :=
  match _lefts : left.items?, _rights : right.items? with
  | some lefts, some rights =>
      lefts.length == rights.length
        && (List.range lefts.length).all fun index =>
          equalSlot (.data (itemOf lefts index)) (.data (itemOf rights index)) true
  | none, none =>
      (left.keys ++ right.keys).attach.all fun key =>
        equalSlot (left.read key.val) (right.read key.val) false
  | _, _ => false
termination_by (left.weight + right.weight, 0)
decreasing_by
  · exact .left _ _ (Nat.add_lt_add (Slot.weight_item _lefts index)
      (Slot.weight_item _rights index))
  · exact .left _ _ (Slot.weight_reads key.property)

def equalSlot (left right : Slot) (arraySlot : Bool) : Bool :=
  if left.isObject || right.isObject then
    left.isObject && right.isObject && equalObject left right
  else left.slotText arraySlot == right.slotText arraySlot
termination_by (left.weight + right.weight, 1)
decreasing_by exact .right _ (Nat.zero_lt_one)

end

/-- `===` of two numbers. -/
def strictEqualNumber : JsNumber → JsNumber → Bool
  | .nan, _ | _, .nan => false
  | .negativeZero, .finite value | .finite value, .negativeZero => value.value == 0
  | left, right => left == right

/-- `left === right`; two objects are identical when they are one object. -/
def strictEqual (identical : Bool) : Data → Data → Bool
  | .undefined, .undefined | .null, .null => true
  | .bool left, .bool right => left == right
  | .string left, .string right => left == right
  | .number left, .number right => strictEqualNumber left right
  | .array _, .array _ | .object _, .object _ => identical
  | _, _ => false

/-- Structural equality with the object and array semantics of `stableStringify`. -/
def stableEqual (identical : Bool) (left right : Data) : Bool :=
  if strictEqual identical left right then true
  else if !(Slot.data left).isObject || !(Slot.data right).isObject then false
  else equalObject (.data left) (.data right)

end Comparison

-- What a stable text keeps of a tree

section Texts

variable {fields : List (JsString × Data)}

/-- What an array slot counts as. -/
def filled : Data → Data
  | .undefined => .null
  | value => value

mutual

/-- The tree of what is written: other numbers are null, and so are the undefined slots. -/
def written : Data → Data
  | .number .negativeZero => .number (.finite .zero)
  | .number (.infinite _) | .number .nan => .null
  | .array items => .array (writtenItems items)
  | .object fields => .object (writtenFields fields)
  | value => value

def writtenItems : List Data → List Data
  | [] => []
  | item :: rest => filled (written item) :: writtenItems rest

def writtenFields : List (JsString × Data) → List (JsString × Data)
  | [] => []
  | field :: rest => writtenField field :: writtenFields rest

def writtenField : JsString × Data → JsString × Data
  | (key, value) => (key, written value)

end

mutual

/-- No object of the tree lists a key twice. -/
def keysDistinct : Data → Bool
  | .array items => itemsDistinct items
  | .object fields => decide (fields.map Prod.fst).Nodup && fieldsDistinct fields
  | _ => true

def itemsDistinct : List Data → Bool
  | [] => true
  | item :: rest => keysDistinct item && itemsDistinct rest

def fieldsDistinct : List (JsString × Data) → Bool
  | [] => true
  | field :: rest => fieldDistinct field && fieldsDistinct rest

def fieldDistinct : JsString × Data → Bool
  | (_, value) => keysDistinct value

end

theorem itemsDistinct_iff {items : List Data}
    : itemsDistinct items = true ↔ ∀ item ∈ items, keysDistinct item = true := by
  induction items with
  | nil => simp [itemsDistinct]
  | cons item rest ih => simp [itemsDistinct, ih]

theorem fieldsDistinct_iff
    : fieldsDistinct fields = true ↔ ∀ field ∈ fields, keysDistinct field.2 = true := by
  induction fields with
  | nil => simp [fieldsDistinct]
  | cons field rest ih =>
      obtain ⟨key, value⟩ := field
      simp [fieldsDistinct, fieldDistinct, ih]

theorem writtenItems_eq (items : List Data)
    : writtenItems items = items.map fun item => filled (written item) := by
  induction items with
  | nil => rfl
  | cons item rest ih => rw [writtenItems, ih, List.map_cons]

theorem writtenFields_eq (fields : List (JsString × Data))
    : writtenFields fields = fields.map writtenField := by
  induction fields with
  | nil => rfl
  | cons field rest ih => rw [writtenFields, ih, List.map_cons]

theorem keys_writtenFields (fields : List (JsString × Data))
    : (writtenFields fields).map Prod.fst = fields.map Prod.fst := by
  rw [writtenFields_eq, List.map_map]
  apply List.map_congr_left
  intro field _
  obtain ⟨key, value⟩ := field
  rfl

theorem filled_of_defined {value : Data} (defined : value ≠ .undefined)
    : filled value = value := by
  cases value with
  | undefined => exact absurd rfl defined
  | _ => rfl

theorem filled_ne_undefined (value : Data) : filled value ≠ .undefined := by
  cases value <;> simp [filled]

theorem written_eq_undefined {value : Data} : written value = .undefined ↔ value = .undefined := by
  cases value with
  | number number => cases number <;> simp [written]
  | _ => simp [written]

theorem filled_written (value : Data) : filled (written value) = written (filled value) := by
  by_cases undefined : value = .undefined
  · rw [undefined]
    rfl
  · rw [filled_of_defined undefined, filled_of_defined (mt written_eq_undefined.mp undefined)]

theorem text_zero : numberToString .zero = [unit '0'] := by decide +kernel

theorem serialize_filled (value : Data)
    : serialize (filled value) = some ((serialize value).getD (units "null")) := by
  cases value <;> rfl

/-- A tree has the text of what is written of it, by induction over the tree. -/
theorem serialize_written (value : Data) : serialize (written value) = serialize value := by
  induction value using Data.induct with
  | undefined => rfl
  | null => rfl
  | bool value => rfl
  | string value => rfl
  | number value =>
      cases value with
      | negativeZero => exact congrArg some text_zero
      | _ => rfl
  | array items ih =>
      have texts : serializeItems (writtenItems items) = serializeItems items := by
        rw [serializeItems_eq, serializeItems_eq, writtenItems_eq, List.map_map]
        apply List.map_congr_left
        intro item member
        rw [Function.comp_apply, serialize_filled, ih item member, Option.getD_some]
      rw [written, serialize, serialize, texts]
  | object fields ih =>
      have texts : serializeFields (writtenFields fields) = serializeFields fields := by
        rw [serializeFields_eq, serializeFields_eq, writtenFields_eq, List.filterMap_map]
        apply List.filterMap_congr
        intro field member
        have same := ih field member
        obtain ⟨key, value⟩ := field
        exact congrArg (fun text => some (key, text)) same
      rw [written, serialize, serialize, texts]

/-- What is written is lossless, by induction over the tree. -/
theorem isLossless_written (value : Data) (distinct : keysDistinct value = true)
    : isLossless (written value) = true := by
  induction value using Data.induct with
  | undefined => rfl
  | null => rfl
  | bool value => rfl
  | string value => rfl
  | number value => cases value <;> rfl
  | array items ih =>
      apply itemsLossless_iff.mpr
      intro item member
      rw [writtenItems_eq] at member
      obtain ⟨source, sourceMember, rfl⟩ := List.mem_map.mp member
      refine ⟨filled_ne_undefined _, ?_⟩
      have lossless := ih source sourceMember (itemsDistinct_iff.mp distinct source sourceMember)
      by_cases undefined : written source = .undefined
      · rw [undefined]
        rfl
      · rwa [filled_of_defined undefined]
  | object fields ih =>
      obtain ⟨keys, inner⟩ := Bool.and_eq_true_iff.mp distinct
      apply Bool.and_eq_true_iff.mpr
      rw [keys_writtenFields]
      refine ⟨keys, fieldsLossless_iff.mpr ?_⟩
      intro field member
      rw [writtenFields_eq] at member
      obtain ⟨source, sourceMember, rfl⟩ := List.mem_map.mp member
      have lossless := ih source sourceMember (fieldsDistinct_iff.mp inner source sourceMember)
      obtain ⟨key, value⟩ := source
      exact lossless

/-- Two trees have one text exactly when what is written of them reads the same. -/
theorem serialize_eq_iff {left right : Data} (leftKeys : keysDistinct left = true)
    (rightKeys : keysDistinct right = true)
    : serialize left = serialize right ↔ SameData (written left) (written right) := by
  rw [← serialize_written left, ← serialize_written right]
  exact stableStringify_eq_iff_of_lossless (isLossless_written left leftKeys)
    (isLossless_written right rightKeys)

theorem fieldOf_written (fields : List (JsString × Data)) (key : JsString)
    : fieldOf (writtenFields fields) key = written (fieldOf fields key) := by
  induction fields with
  | nil => rfl
  | cons field rest ih =>
      obtain ⟨name, value⟩ := field
      by_cases same : name = key
      · simp [writtenFields, writtenField, fieldOf, same]
      · simpa [writtenFields, writtenField, fieldOf, same] using ih

theorem itemOf_written (items : List Data) (index : ℕ)
    : filled (itemOf (writtenItems items) index) = written (filled (itemOf items index)) := by
  unfold itemOf
  rw [writtenItems_eq, List.getElem?_map]
  cases items[index]? with
  | none => rfl
  | some item =>
      rw [Option.map_some, Option.getD_some, Option.getD_some, ← filled_written]
      exact filled_of_defined (filled_ne_undefined _)

theorem keysDistinct_fieldOf (distinct : keysDistinct (.object fields) = true) (key : JsString)
    : keysDistinct (fieldOf fields key) = true := by
  obtain ⟨_, inner⟩ := Bool.and_eq_true_iff.mp distinct
  by_cases undefined : fieldOf fields key = .undefined
  · rw [undefined]
    rfl
  · exact fieldsDistinct_iff.mp inner _ (mem_of_fieldOf rfl undefined)

theorem keysDistinct_itemOf {items : List Data} (distinct : keysDistinct (.array items) = true)
    (index : ℕ)
    : keysDistinct (filled (itemOf items index)) = true := by
  unfold itemOf
  cases present : items[index]? with
  | none => rfl
  | some item =>
      have inner := itemsDistinct_iff.mp distinct item (List.mem_of_getElem? present)
      rw [Option.getD_some]
      cases item with
      | undefined => rfl
      | _ => exact inner

theorem serialize_array_iff {left right : List Data} (leftKeys : keysDistinct (.array left) = true)
    (rightKeys : keysDistinct (.array right) = true)
    : serialize (.array left) = serialize (.array right)
      ↔ left.length = right.length
        ∧ ∀ index,
            serialize (filled (itemOf left index)) = serialize (filled (itemOf right index)) := by
  have slots (index : ℕ) := serialize_eq_iff (keysDistinct_itemOf leftKeys index)
    (keysDistinct_itemOf rightKeys index)
  have lengths (items : List Data) : (writtenItems items).length = items.length := by
    rw [writtenItems_eq, List.length_map]
  rw [serialize_eq_iff leftKeys rightKeys]
  constructor
  · intro same
    cases same with
    | array _ _ length same =>
        rw [lengths, lengths] at length
        refine ⟨length, fun index => (slots index).mpr ?_⟩
        rw [← itemOf_written, ← itemOf_written]
        by_cases undefined : itemOf (writtenItems left) index = .undefined
        · rw [undefined, (same index).undefined_iff.mp undefined]
          exact .null
        · rw [filled_of_defined undefined,
            filled_of_defined (mt (same index).undefined_iff.mpr undefined)]
          exact same index
  · rintro ⟨length, texts⟩
    refine .array _ _ (by rw [lengths, lengths, length]) fun index => ?_
    have same := (slots index).mp (texts index)
    rw [← itemOf_written, ← itemOf_written] at same
    by_cases present : index < left.length
    · have defined (items : List Data) (inside : index < items.length)
          : itemOf (writtenItems items) index ≠ .undefined := by
        rw [itemOf, writtenItems_eq, List.getElem?_map, List.getElem?_eq_getElem inside]
        exact filled_ne_undefined _
      rwa [filled_of_defined (defined left present),
        filled_of_defined (defined right (length ▸ present))] at same
    · have missing (items : List Data) (outside : items.length ≤ index)
          : itemOf (writtenItems items) index = .undefined := by
        rw [itemOf, writtenItems_eq, List.getElem?_map, List.getElem?_eq_none outside]
        rfl
      rw [missing left (not_lt.mp present), missing right (length ▸ not_lt.mp present)]
      exact .undefined

theorem serialize_object_iff {left right : List (JsString × Data)}
    (leftKeys : keysDistinct (.object left) = true)
    (rightKeys : keysDistinct (.object right) = true)
    : serialize (.object left) = serialize (.object right)
      ↔ ∀ key, serialize (fieldOf left key) = serialize (fieldOf right key) := by
  have fields (key : JsString) := serialize_eq_iff (keysDistinct_fieldOf leftKeys key)
    (keysDistinct_fieldOf rightKeys key)
  rw [serialize_eq_iff leftKeys rightKeys]
  constructor
  · intro same key
    cases same with
    | object _ _ same =>
        have field := same key
        rw [fieldOf_written, fieldOf_written] at field
        exact (fields key).mpr field
  · intro texts
    refine .object _ _ fun key => ?_
    rw [fieldOf_written, fieldOf_written]
    exact (fields key).mp (texts key)

end Texts

-- Trees that are alike

section Alike

def isScalar (value : Data) : Bool := !(Slot.data value).isObject

/-- `null` and the numbers that are written as null. -/
def writesNull : Data → Bool
  | .null | .number .nan | .number (.infinite _) => true
  | _ => false

/-- The `__proto__` that only one of two facing objects owns. -/
def OnlyOne (left right : List (JsString × Data)) (value : Data) : Prop :=
  (protoKey ∈ left.map Prod.fst ∧ protoKey ∉ right.map Prod.fst ∧ value = fieldOf left protoKey)
  ∨ (protoKey ∉ left.map Prod.fst ∧ protoKey ∈ right.map Prod.fst ∧ value = fieldOf right protoKey)

/-- Equal up to the order of keys and undefined fields, but of a `__proto__` that only one of
two facing objects owns no more is asked than that it is tolerated.
-/
inductive AlikeBut (tolerated : Data → Prop) : Data → Data → Prop where
  | scalar (left right : Data) (leftScalar : isScalar left = true)
    (rightScalar : isScalar right = true) (text : serialize left = serialize right)
    : AlikeBut tolerated left right
  | array (left right : List Data) (length : left.length = right.length)
    (slots
      : ∀ index,
          AlikeBut tolerated (filled (itemOf left index)) (filled (itemOf right index)))
    : AlikeBut tolerated (.array left) (.array right)
  | object (left right : List (JsString × Data))
    (fields
      : ∀ key,
          (key = protoKey → (protoKey ∈ left.map Prod.fst ↔ protoKey ∈ right.map Prod.fst))
          → AlikeBut tolerated (fieldOf left key) (fieldOf right key))
    (oneSided : ∀ value, OnlyOne left right value → tolerated value)
    : AlikeBut tolerated (.object left) (.object right)

/-- The `__proto__` values that only one of two facing objects owns, anywhere in two trees. -/
inductive OneSided : Data → Data → Data → Prop where
  | here (left right : List (JsString × Data)) (value : Data) (only : OnlyOne left right value)
    : OneSided (.object left) (.object right) value
  | item (left right : List Data) (index : ℕ) (value : Data)
    (inner : OneSided (filled (itemOf left index)) (filled (itemOf right index)) value)
    : OneSided (.array left) (.array right) value
  | field (left right : List (JsString × Data)) (key : JsString) (value : Data)
    (owned : key = protoKey → (protoKey ∈ left.map Prod.fst ↔ protoKey ∈ right.map Prod.fst))
    (inner : OneSided (fieldOf left key) (fieldOf right key) value)
    : OneSided (.object left) (.object right) value

/-- An object that reads like `Object.prototype`: it has no enumerable keys but its own
`__proto__`, which is null.
-/
def ReadsAsPrototype (value : Data) : Prop :=
  ∃ fields : List (JsString × Data),
    value = .object fields
    ∧ ∀ key ∈ fields.map Prod.fst,
        if key = protoKey then writesNull (fieldOf fields key) = true
        else fieldOf fields key = .undefined

/-- Only one of two objects owns `__proto__` when they do not agree on owning it. -/
theorem exists_onlyOne {left right : List (JsString × Data)}
    (different : ¬ (protoKey ∈ left.map Prod.fst ↔ protoKey ∈ right.map Prod.fst))
    : ∃ value, OnlyOne left right value := by
  by_cases here : protoKey ∈ left.map Prod.fst
  · have missing : protoKey ∉ right.map Prod.fst := fun there =>
      different ⟨fun _ => there, fun _ => here⟩
    exact ⟨_, .inl ⟨here, missing, rfl⟩⟩
  · have there : protoKey ∈ right.map Prod.fst := by
      by_contra missing
      exact different ⟨fun there => absurd there here, fun there => absurd there missing⟩
    exact ⟨_, .inr ⟨here, there, rfl⟩⟩

theorem not_isScalar_array (items : List Data) : ¬ isScalar (.array items) = true := by
  simp [isScalar, Slot.isObject]

theorem not_isScalar_object (fields : List (JsString × Data))
    : ¬ isScalar (.object fields) = true := by
  simp [isScalar, Slot.isObject]

namespace AlikeBut

variable {tolerated : Data → Prop} {left right : Data}

theorem scalar_iff (leftScalar : isScalar left = true)
    : AlikeBut tolerated left right
      ↔ isScalar right = true ∧ serialize left = serialize right := by
  constructor
  · intro alike
    cases alike with
    | scalar _ _ _ rightScalar text => exact ⟨rightScalar, text⟩
    | array items => exact absurd leftScalar (not_isScalar_array items)
    | object fields => exact absurd leftScalar (not_isScalar_object fields)
  · intro same
    exact .scalar _ _ leftScalar same.1 same.2

theorem array_iff {items : List Data}
    : AlikeBut tolerated (.array items) right
      ↔ ∃ others,
          right = .array others
          ∧ items.length = others.length
          ∧ ∀ index,
              AlikeBut tolerated (filled (itemOf items index)) (filled (itemOf others index)) := by
  constructor
  · intro alike
    cases alike with
    | scalar _ _ leftScalar => exact absurd leftScalar (not_isScalar_array items)
    | array _ others length slots => exact ⟨others, rfl, length, slots⟩
  · intro parts
    obtain ⟨others, same, length, slots⟩ := parts
    rw [same]
    exact .array _ _ length slots

theorem object_iff {fields : List (JsString × Data)}
    : AlikeBut tolerated (.object fields) right
      ↔ ∃ others : List (JsString × Data),
          right = .object others
          ∧ (∀ key,
              (key = protoKey
                → (protoKey ∈ fields.map Prod.fst ↔ protoKey ∈ others.map Prod.fst))
              → AlikeBut tolerated (fieldOf fields key) (fieldOf others key))
          ∧ ∀ value, OnlyOne fields others value → tolerated value := by
  constructor
  · intro alike
    cases alike with
    | scalar _ _ leftScalar => exact absurd leftScalar (not_isScalar_object fields)
    | object _ others same oneSided => exact ⟨others, rfl, same, oneSided⟩
  · intro parts
    obtain ⟨others, same, read, oneSided⟩ := parts
    rw [same]
    exact .object _ _ read oneSided

theorem isScalar_eq (alike : AlikeBut tolerated left right) : isScalar left = isScalar right := by
  cases alike with
  | scalar _ _ leftScalar rightScalar => exact leftScalar.trans rightScalar.symm
  | array | object => rfl

/-- What is tolerated matters at the one-sided values and nowhere else. -/
theorem iff_oneSided
    : AlikeBut tolerated left right
      ↔ AlikeBut (fun _ => True) left right
        ∧ ∀ value, OneSided left right value → tolerated value := by
  constructor
  · intro alike
    induction alike with
    | scalar left right leftScalar rightScalar text =>
        refine ⟨.scalar _ _ leftScalar rightScalar text, fun value found => ?_⟩
        cases found with
        | here fields => exact absurd leftScalar (not_isScalar_object fields)
        | item items => exact absurd leftScalar (not_isScalar_array items)
        | field fields => exact absurd leftScalar (not_isScalar_object fields)
    | array left right length _ ih =>
        refine ⟨.array _ _ length fun index => (ih index).1, fun value found => ?_⟩
        cases found with
        | item _ _ index _ inner => exact (ih index).2 value inner
    | object left right _ oneSided ih =>
        refine ⟨.object _ _ (fun key owned => (ih key owned).1) fun _ _ => trivial,
          fun value found => ?_⟩
        cases found with
        | here _ _ _ only => exact oneSided value only
        | field _ _ key _ owned inner => exact (ih key owned).2 value inner
  · intro parts
    obtain ⟨alike, all⟩ := parts
    induction alike with
    | scalar left right leftScalar rightScalar text =>
        exact .scalar _ _ leftScalar rightScalar text
    | array left right length _ ih =>
        exact .array _ _ length fun index =>
          ih index fun value inner => all value (.item _ _ index _ inner)
    | object left right _ _ ih =>
        refine .object _ _ (fun key owned => ih key owned fun value inner => ?_)
          fun value only => all value (.here _ _ _ only)
        exact all value (.field _ _ key _ owned inner)

end AlikeBut

/-- Nothing is one-sided between a tree and itself. -/
theorem not_oneSided_self {left right value : Data} (found : OneSided left right value)
    : left ≠ right := by
  induction found with
  | here left right value only =>
      intro same
      obtain rfl := Data.object.inj same
      rcases only with only | only
      · exact only.2.1 only.1
      · exact only.1 only.2.1
  | item left right index value _ ih =>
      intro same
      obtain rfl := Data.array.inj same
      exact ih rfl
  | field left right key value _ _ ih =>
      intro same
      obtain rfl := Data.object.inj same
      exact ih rfl

theorem serialize_eq_none {value : Data} : serialize value = none ↔ value = .undefined := by
  cases value <;> simp [serialize]

theorem isScalar_of_serialize_eq {left right : Data} (leftKeys : keysDistinct left = true)
    (rightKeys : keysDistinct right = true) (text : serialize left = serialize right)
    : isScalar left = isScalar right := by
  have same := (serialize_eq_iff leftKeys rightKeys).mp text
  have kept (value : Data) : isScalar (written value) = isScalar value := by
    cases value with
    | number number => cases number <;> rfl
    | _ => rfl
  rw [← kept left, ← kept right]
  generalize written left = left at same
  generalize written right = right at same
  cases same <;> rfl

/-- One text means alike, where a one-sided `__proto__` is only tolerated when it is
undefined; by induction over the left tree.
-/
theorem serialize_eq_iff_alike (left right : Data) (leftKeys : keysDistinct left = true)
    (rightKeys : keysDistinct right = true)
    : serialize left = serialize right ↔ AlikeBut (· = .undefined) left right := by
  have scalars {left right : Data} (leftKeys : keysDistinct left = true)
      (rightKeys : keysDistinct right = true) (scalar : isScalar left = true)
      : serialize left = serialize right ↔ AlikeBut (· = .undefined) left right := by
    rw [AlikeBut.scalar_iff scalar]
    constructor
    · intro text
      exact ⟨(isScalar_of_serialize_eq leftKeys rightKeys text).symm.trans scalar, text⟩
    · intro same
      exact same.2
  induction left using Data.induct generalizing right with
  | undefined => exact scalars leftKeys rightKeys rfl
  | null => exact scalars leftKeys rightKeys rfl
  | bool value => exact scalars leftKeys rightKeys rfl
  | number value => exact scalars leftKeys rightKeys rfl
  | string value => exact scalars leftKeys rightKeys rfl
  | array items ih =>
      have slot (index : ℕ) (other : Data) (otherKeys : keysDistinct other = true)
          : serialize (filled (itemOf items index)) = serialize other
            ↔ AlikeBut (· = .undefined) (filled (itemOf items index)) other := by
        by_cases undefined : itemOf items index = .undefined
        · rw [undefined]
          exact scalars rfl otherKeys rfl
        · rw [filled_of_defined undefined]
          have keys := keysDistinct_itemOf leftKeys index
          rw [filled_of_defined undefined] at keys
          refine ih _ ?_ other keys otherKeys
          unfold itemOf at undefined ⊢
          cases present : items[index]? with
          | none =>
              rw [present] at undefined
              exact absurd rfl undefined
          | some item => exact List.mem_of_getElem? present
      rw [AlikeBut.array_iff]
      constructor
      · intro text
        have shape := isScalar_of_serialize_eq leftKeys rightKeys text
        cases right with
        | array others =>
            obtain ⟨length, texts⟩ := (serialize_array_iff leftKeys rightKeys).mp text
            refine ⟨others, rfl, length, fun index => ?_⟩
            exact (slot index _ (keysDistinct_itemOf rightKeys index)).mp (texts index)
        | object others =>
            have same := (serialize_eq_iff leftKeys rightKeys).mp text
            simp only [written] at same
            cases same
        | _ => cases shape
      · intro parts
        obtain ⟨others, rfl, length, slots⟩ := parts
        refine (serialize_array_iff leftKeys rightKeys).mpr ⟨length, fun index => ?_⟩
        exact (slot index _ (keysDistinct_itemOf rightKeys index)).mpr (slots index)
  | object fields ih =>
      have field (key : JsString) (other : Data) (otherKeys : keysDistinct other = true)
          : serialize (fieldOf fields key) = serialize other
            ↔ AlikeBut (· = .undefined) (fieldOf fields key) other := by
        by_cases undefined : fieldOf fields key = .undefined
        · rw [undefined]
          exact scalars rfl otherKeys rfl
        · exact ih _ (mem_of_fieldOf rfl undefined) other (keysDistinct_fieldOf leftKeys key)
            otherKeys
      rw [AlikeBut.object_iff]
      constructor
      · intro text
        have shape := isScalar_of_serialize_eq leftKeys rightKeys text
        cases right with
        | object others =>
            have texts := (serialize_object_iff leftKeys rightKeys).mp text
            refine ⟨others, rfl, fun key _ => ?_, fun value only => ?_⟩
            · exact (field key _ (keysDistinct_fieldOf rightKeys key)).mp (texts key)
            · have proto := texts protoKey
              rcases only with ⟨_, missing, rfl⟩ | ⟨missing, _, rfl⟩
              · rw [fieldOf_of_not_mem missing] at proto
                exact serialize_eq_none.mp proto
              · rw [fieldOf_of_not_mem missing] at proto
                exact serialize_eq_none.mp proto.symm
        | array others =>
            have same := (serialize_eq_iff leftKeys rightKeys).mp text
            simp only [written] at same
            cases same
        | _ => cases shape
      · intro parts
        obtain ⟨others, rfl, read, oneSided⟩ := parts
        refine (serialize_object_iff leftKeys rightKeys).mpr fun key => ?_
        by_cases owned : key = protoKey
            → (protoKey ∈ fields.map Prod.fst ↔ protoKey ∈ others.map Prod.fst)
        · exact (field key _ (keysDistinct_fieldOf rightKeys key)).mpr (read key owned)
        · obtain ⟨rfl, different⟩ := Classical.not_imp.mp owned
          obtain ⟨value, only⟩ := exists_onlyOne different
          have undefined := oneSided value only
          rcases only with ⟨_, missing, same⟩ | ⟨missing, _, same⟩
          · rw [← same, undefined, fieldOf_of_not_mem missing]
          · rw [← same, undefined, fieldOf_of_not_mem missing]

end Alike

-- What the comparison decides

section Decision

theorem equalSlot_text {left right : Slot} (scalar : left.isObject = false ∨ right.isObject = false)
    : equalSlot left right false = true
      ↔ left.isObject = false ∧ right.isObject = false ∧ left.text = right.text := by
  rw [equalSlot]
  cases first : left.isObject <;> cases second : right.isObject <;>
    simp_all [Slot.slotText]

theorem equalSlot_objects {left right : Slot} (first : left.isObject = true)
    (second : right.isObject = true) (arraySlot : Bool)
    : equalSlot left right arraySlot = equalObject left right := by
  rw [equalSlot, first, second]
  rfl

/-- A slot of an array is compared as what it counts as. -/
theorem equalSlot_filled (left right : Data)
    : equalSlot (.data left) (.data right) true
      = equalSlot (.data (filled left)) (.data (filled right)) false := by
  have kind (value : Data) : (Slot.data (filled value)).isObject = (Slot.data value).isObject := by
    cases value <;> rfl
  have text (value : Data)
      : (Slot.data value).slotText true = (Slot.data (filled value)).slotText false := by
    cases value <;> rfl
  by_cases objects : (Slot.data left).isObject = true ∧ (Slot.data right).isObject = true
  · have defined (value : Data) (object : (Slot.data value).isObject = true)
        : filled value = value := by
      cases value <;> first | rfl | cases object
    rw [defined left objects.1, defined right objects.2,
      equalSlot_objects objects.1 objects.2, equalSlot_objects objects.1 objects.2]
  · rw [equalSlot, equalSlot, kind, kind, text, text]
    cases first : (Slot.data left).isObject <;> cases second : (Slot.data right).isObject <;>
      simp_all

theorem equalObject_arrays (left right : List Data)
    : equalObject (.data (.array left)) (.data (.array right)) = true
      ↔ left.length = right.length
        ∧ ∀ index < left.length,
            equalSlot (.data (itemOf left index)) (.data (itemOf right index)) true = true := by
  rw [equalObject]
  simp [Slot.items?]

theorem equalObject_records {left right : Slot} (first : left.items? = none)
    (second : right.items? = none)
    : equalObject left right = true
      ↔ ∀ key ∈ left.keys ++ right.keys,
          equalSlot (left.read key) (right.read key) false = true := by
  rw [equalObject]
  split
  next _ _ array _ => cases first.symm.trans array
  next => simp [or_imp, forall_and]
  next _ other => exact absurd second (other first)

theorem writesNull_iff {value : Data}
    : writesNull value = true ↔ isScalar value = true ∧ serialize value = some (units "null") := by
  constructor
  · intro null
    cases value with
    | null => exact ⟨rfl, rfl⟩
    | number number => cases number <;> first | exact ⟨rfl, rfl⟩ | cases null
    | _ => cases null
  · intro parts
    obtain ⟨scalar, text⟩ := parts
    have keys : keysDistinct value = true := by
      cases value <;> first | rfl | cases scalar
    have null : serialize .null = some (units "null") := rfl
    have same := (serialize_eq_iff keys rfl).mp (text.trans null.symm)
    cases value with
    | null => rfl
    | number number => cases number <;> first | rfl | cases same
    | _ => cases same

/-- What is inherited under another key has no text. -/
theorem inherited_nothing {key : JsString} (other : key ≠ protoKey) (parent : Slot)
    : (inherited key parent).isObject = false ∧ (inherited key parent).text = none := by
  rw [inherited, if_neg other]
  split <;> exact ⟨rfl, rfl⟩

/-- An object faces `Object.prototype`: each of its keys is read there. -/
theorem equal_prototype_iff (value : Data)
    : (isScalar value = false ∧ equalObject (.data value) .prototype = true)
      ↔ ReadsAsPrototype value := by
  cases value with
  | object fields =>
      have read {key : JsString} (own : key ∈ fields.map Prod.fst)
          : equalSlot ((Slot.data (.object fields)).read key) (Slot.prototype.read key) false = true
            ↔ if key = protoKey then writesNull (fieldOf fields key) = true
              else fieldOf fields key = .undefined := by
        have there : Slot.prototype.read key = inherited key (.data .null) := by simp [Slot.read]
        rw [Slot.read, if_pos own, there]
        split
        next proto =>
          rw [inherited, if_pos proto, equalSlot_text (.inr rfl), writesNull_iff]
          simp [isScalar, Slot.text, Slot.isObject, serialize]
        next other =>
          obtain ⟨scalar, nothing⟩ := inherited_nothing other (.data .null)
          rw [equalSlot_text (.inr scalar), nothing, ← serialize_eq_none]
          constructor
          · intro parts
            exact parts.2.2
          · intro missing
            refine ⟨?_, scalar, missing⟩
            rw [serialize_eq_none.mp missing]
            rfl
      rw [equalObject_records rfl rfl]
      constructor
      · intro parts
        refine ⟨fields, rfl, fun key own => (read own).mp (parts.2 key ?_)⟩
        exact List.mem_append_left _ own
      · intro reads
        obtain ⟨others, same, each⟩ := reads
        obtain rfl := Data.object.inj same
        refine ⟨rfl, fun key own => ?_⟩
        have own' : key ∈ fields.map Prod.fst := by simpa [Slot.keys] using own
        exact (read own').mpr (each key own')
  | array items =>
      constructor
      · intro parts
        have unequal := parts.2
        rw [equalObject] at unequal
        simp [Slot.items?] at unequal
      · intro reads
        obtain ⟨_, same, _⟩ := reads
        cases same
  | _ =>
      constructor
      · intro parts
        cases parts.1
      · intro reads
        obtain ⟨_, same, _⟩ := reads
        cases same

/-- Every key of an object has text at `Object.prototype` or none. -/
theorem isObject_prototype_read (key : JsString)
    : (Slot.prototype.read key).isObject = false := by
  have read : Slot.prototype.read key = inherited key (.data .null) := by simp [Slot.read]
  rw [read]
  by_cases proto : key = protoKey
  · rw [inherited, if_pos proto]
    rfl
  · exact (inherited_nothing proto _).1

theorem equalObject_prototype_comm (value : Data)
    : equalObject .prototype (.data value) = true ↔ equalObject (.data value) .prototype = true := by
  by_cases array : (Slot.data value).items? = none
  · have sides (key : JsString)
        : equalSlot (Slot.prototype.read key) ((Slot.data value).read key) false = true
          ↔ equalSlot ((Slot.data value).read key) (Slot.prototype.read key) false = true := by
      have scalar := isObject_prototype_read key
      rw [equalSlot_text (.inl scalar), equalSlot_text (.inr scalar)]
      constructor
      · intro parts
        exact ⟨parts.2.1, parts.1, parts.2.2.symm⟩
      · intro parts
        exact ⟨parts.2.1, parts.1, parts.2.2.symm⟩
    rw [equalObject_records rfl array, equalObject_records array rfl]
    simp only [sides, List.mem_append, or_comm]
  · cases value with
    | array items =>
        rw [equalObject, equalObject]
        simp [Slot.items?]
    | _ => exact absurd rfl array

section Fields

variable {left right : List (JsString × Data)} {key : JsString} {value : Data}

/-- A field of one key reads as own data, unless only the other side owns it. -/
theorem read_own (own : key ∈ left.map Prod.fst)
    : (Slot.data (.object left)).read key = .data (fieldOf left key) := by
  rw [Slot.read, if_pos own]

theorem read_missing (missing : key ∉ left.map Prod.fst)
    : (Slot.data (.object left)).read key = inherited key .prototype := by
  rw [Slot.read, if_neg missing]

/-- Own data faces what another key inherits as it would face `undefined`. -/
theorem equalSlot_inherited (other : key ≠ protoKey) (parent : Slot)
    : equalSlot (.data value) (inherited key parent) false
      = equalSlot (.data value) (.data .undefined) false := by
  obtain ⟨scalar, nothing⟩ := inherited_nothing other parent
  rw [Bool.eq_iff_iff, equalSlot_text (.inr scalar), equalSlot_text (.inr rfl), nothing, scalar]
  exact Iff.rfl

theorem inherited_equalSlot (other : key ≠ protoKey) (parent : Slot)
    : equalSlot (inherited key parent) (.data value) false
      = equalSlot (.data .undefined) (.data value) false := by
  obtain ⟨scalar, nothing⟩ := inherited_nothing other parent
  rw [Bool.eq_iff_iff, equalSlot_text (.inl scalar), equalSlot_text (.inl rfl), nothing, scalar]
  exact Iff.rfl

/-- Where no side alone owns `__proto__`, the fields are compared as data. -/
theorem equalSlot_reads (own : key ∈ left.map Prod.fst ++ right.map Prod.fst)
    (owned : key = protoKey → (protoKey ∈ left.map Prod.fst ↔ protoKey ∈ right.map Prod.fst))
    : equalSlot ((Slot.data (.object left)).read key) ((Slot.data (.object right)).read key) false
      = equalSlot (.data (fieldOf left key)) (.data (fieldOf right key)) false := by
  by_cases here : key ∈ left.map Prod.fst
  · rw [read_own here]
    by_cases there : key ∈ right.map Prod.fst
    · rw [read_own there]
    · have other : key ≠ protoKey := by
        rintro rfl
        exact there ((owned rfl).mp here)
      rw [read_missing there, fieldOf_of_not_mem there, equalSlot_inherited other]
  · have there : key ∈ right.map Prod.fst := (List.mem_append.mp own).resolve_left here
    have other : key ≠ protoKey := by
      rintro rfl
      exact here ((owned rfl).mpr there)
    rw [read_missing here, read_own there, fieldOf_of_not_mem here, inherited_equalSlot other]

theorem equalSlot_prototype (value : Data)
    : equalSlot (.data value) .prototype false = true ↔ ReadsAsPrototype value := by
  have object : Slot.prototype.isObject = true := rfl
  rw [← equal_prototype_iff, equalSlot, isScalar, object]
  cases (Slot.data value).isObject <;> simp

theorem prototype_equalSlot (value : Data)
    : equalSlot .prototype (.data value) false = true ↔ ReadsAsPrototype value := by
  have object : Slot.prototype.isObject = true := rfl
  rw [← equal_prototype_iff, equalSlot, ← equalObject_prototype_comm, isScalar, object]
  cases (Slot.data value).isObject <;> simp

/-- A `__proto__` that one side alone owns faces `Object.prototype`. -/
theorem equalSlot_onlyOne (only : OnlyOne left right value)
    : equalSlot ((Slot.data (.object left)).read protoKey)
          ((Slot.data (.object right)).read protoKey) false = true
      ↔ ReadsAsPrototype value := by
  have parent : inherited protoKey .prototype = .prototype := if_pos rfl
  rcases only with ⟨here, missing, rfl⟩ | ⟨missing, there, rfl⟩
  · rw [read_own here, read_missing missing, parent, equalSlot_prototype]
  · rw [read_missing missing, read_own there, parent, prototype_equalSlot]

end Fields

/-- The comparison decides alikeness, where a one-sided `__proto__` is tolerated when it
reads like the prototype; by induction over the left tree.
-/
theorem equalSlot_iff_alike (left right : Data)
    : equalSlot (.data left) (.data right) false = true ↔ AlikeBut ReadsAsPrototype left right := by
  have scalars {left : Data} (right : Data) (scalar : isScalar left = true)
      : equalSlot (.data left) (.data right) false = true
        ↔ AlikeBut ReadsAsPrototype left right := by
    have kind : (Slot.data left).isObject = false := by simpa [isScalar] using scalar
    rw [AlikeBut.scalar_iff scalar, equalSlot_text (.inl kind)]
    simp [kind, isScalar, Slot.text]
  induction left using Data.induct generalizing right with
  | undefined => exact scalars right rfl
  | null => exact scalars right rfl
  | bool value => exact scalars right rfl
  | number value => exact scalars right rfl
  | string value => exact scalars right rfl
  | array items ih =>
      have slot (index : ℕ) (other : Data)
          : equalSlot (.data (filled (itemOf items index))) (.data other) false = true
            ↔ AlikeBut ReadsAsPrototype (filled (itemOf items index)) other := by
        by_cases undefined : itemOf items index = .undefined
        · rw [undefined]
          exact scalars other rfl
        · rw [filled_of_defined undefined]
          refine ih _ ?_ other
          unfold itemOf at undefined ⊢
          cases present : items[index]? with
          | none =>
              rw [present] at undefined
              exact absurd rfl undefined
          | some item => exact List.mem_of_getElem? present
      rw [AlikeBut.array_iff]
      constructor
      · intro equal
        cases right with
        | array others =>
            rw [equalSlot_objects rfl rfl, equalObject_arrays] at equal
            refine ⟨others, rfl, equal.1, fun index => ?_⟩
            by_cases inside : index < items.length
            · exact (slot index _).mp ((equalSlot_filled _ _).symm.trans (equal.2 index inside))
            · have missing (values : List Data) (outside : values.length ≤ index)
                  : itemOf values index = .undefined := by
                rw [itemOf, List.getElem?_eq_none outside]
                rfl
              rw [missing items (not_lt.mp inside), missing others (equal.1 ▸ not_lt.mp inside)]
              exact .scalar _ _ rfl rfl rfl
        | object fields =>
            rw [equalSlot_objects rfl rfl, equalObject] at equal
            simp [Slot.items?] at equal
        | _ => cases ((equalSlot_text (.inr rfl)).mp equal).1
      · intro parts
        obtain ⟨others, rfl, length, slots⟩ := parts
        rw [equalSlot_objects rfl rfl, equalObject_arrays]
        refine ⟨length, fun index _ => ?_⟩
        rw [equalSlot_filled]
        exact (slot index _).mpr (slots index)
  | object fields ih =>
      have field (key : JsString) (other : Data)
          : equalSlot (.data (fieldOf fields key)) (.data other) false = true
            ↔ AlikeBut ReadsAsPrototype (fieldOf fields key) other := by
        by_cases undefined : fieldOf fields key = .undefined
        · rw [undefined]
          exact scalars other rfl
        · exact ih _ (mem_of_fieldOf rfl undefined) other
      cases right with
      | object others =>
          rw [AlikeBut.object_iff, equalSlot_objects rfl rfl, equalObject_records rfl rfl]
          constructor
          · intro equal
            refine ⟨others, rfl, fun key owned => ?_, fun value only => ?_⟩
            · by_cases own : key ∈ fields.map Prod.fst ++ others.map Prod.fst
              · have same := equal key own
                rw [equalSlot_reads own owned] at same
                exact (field key _).mp same
              · rw [List.mem_append, not_or] at own
                rw [fieldOf_of_not_mem own.1, fieldOf_of_not_mem own.2]
                exact .scalar _ _ rfl rfl rfl
            · refine (equalSlot_onlyOne only).mp (equal protoKey ?_)
              rcases only with only | only
              · exact List.mem_append_left _ only.1
              · exact List.mem_append_right _ only.2.1
          · intro parts
            obtain ⟨_, same, read, oneSided⟩ := parts
            obtain rfl := Data.object.inj same
            intro key own
            by_cases owned : key = protoKey
                → (protoKey ∈ fields.map Prod.fst ↔ protoKey ∈ others.map Prod.fst)
            · rw [equalSlot_reads own owned]
              exact (field key _).mpr (read key owned)
            · obtain ⟨rfl, different⟩ := Classical.not_imp.mp owned
              obtain ⟨value, only⟩ := exists_onlyOne different
              exact (equalSlot_onlyOne only).mpr (oneSided value only)
      | array items =>
          rw [AlikeBut.object_iff, equalSlot_objects rfl rfl, equalObject]
          simp [Slot.items?]
      | _ =>
          rw [AlikeBut.object_iff, equalSlot_text (.inr rfl)]
          simp [Slot.isObject]

end Decision

-- When the comparison and the text agree

section Agreement

variable {left value : Data} {right : Data}

/-- Two trees that differ at most in `__proto__` fields which only one of two facing objects
owns: there are some, and they all are undefined or they all read like the prototype.
-/
structure PrototypeExposed (left right : Data) : Prop where
  alike : AlikeBut (fun _ => True) left right
  found : ∃ value, OneSided left right value
  uniform
    : (∀ value, OneSided left right value → value = .undefined)
      ∨ ∀ value, OneSided left right value → ReadsAsPrototype value

/-- Two scalars that are written as null, but are not identical. -/
structure NullsExposed (left right : Data) : Prop where
  leftNull : writesNull left = true
  rightNull : writesNull right = true
  different : strictEqual false left right = false

/-- Inside of a comparison it agrees with the text but for an exposed prototype. -/
theorem equalSlot_iff_serialize (leftKeys : keysDistinct left = true)
    (rightKeys : keysDistinct right = true)
    : (equalSlot (.data left) (.data right) false = true ↔ serialize left = serialize right)
      ↔ ¬ PrototypeExposed left right := by
  have equal : AlikeBut ReadsAsPrototype left right ↔ _ := AlikeBut.iff_oneSided
  have text : AlikeBut (· = .undefined) left right ↔ _ := AlikeBut.iff_oneSided
  rw [equalSlot_iff_alike, serialize_eq_iff_alike left right leftKeys rightKeys, equal, text]
  have apart {value : Data} (undefined : value = .undefined) : ¬ ReadsAsPrototype value := by
    rintro ⟨fields, same, _⟩
    cases undefined.symm.trans same
  constructor
  · intro agree exposed
    obtain ⟨alike, ⟨value, found⟩, uniform | uniform⟩ := exposed
    · exact apart (uniform value found) ((agree.mpr ⟨alike, uniform⟩).2 value found)
    · exact apart ((agree.mp ⟨alike, uniform⟩).2 value found) (uniform value found)
  · intro hidden
    by_cases found : ∃ value, OneSided left right value
    · constructor
      · intro equal
        exact absurd ⟨equal.1, found, .inr equal.2⟩ hidden
      · intro text
        exact absurd ⟨text.1, found, .inl text.2⟩ hidden
    · have vacuous (tolerated : Data → Prop) (value : Data) (one : OneSided left right value)
          : tolerated value :=
        absurd ⟨value, one⟩ found
      constructor
      · intro equal
        exact ⟨equal.1, vacuous _⟩
      · intro text
        exact ⟨text.1, vacuous _⟩

theorem keysDistinct_of_isScalar (scalar : isScalar value = true)
    : keysDistinct value = true := by
  cases value <;> first | rfl | cases scalar

theorem finite_zero_iff {value : Binary64} : value = .zero ↔ value.value = 0 := by
  constructor
  · intro same
    rw [same]
    rfl
  · intro same
    exact Binary64.ext same

/-- Numbers that `===` equates are written alike; those written alike are equated or null. -/
theorem written_number_iff {left right : JsNumber}
    : written (.number left) = written (.number right)
      ↔ strictEqualNumber left right = true
        ∨ writesNull (.number left) = true ∧ writesNull (.number right) = true := by
  cases left <;> cases right <;>
    simp [written, strictEqualNumber, writesNull, finite_zero_iff, eq_comm (a := Binary64.zero)]

/-- Scalars that `===` equates have one text; those with one text are equated or are
written as null.
-/
theorem serialize_eq_iff_strictEqual (leftScalar : isScalar left = true)
    (rightScalar : isScalar right = true)
    : serialize left = serialize right
      ↔ strictEqual false left right = true
        ∨ writesNull left = true ∧ writesNull right = true := by
  have same : SameData (written left) (written right) ↔ written left = written right := by
    constructor
    · intro same
      cases left with
      | array items => exact absurd leftScalar (not_isScalar_array items)
      | object fields => exact absurd leftScalar (not_isScalar_object fields)
      | number number => cases number <;> (generalize written right = right at same; cases same; rfl)
      | _ => generalize written right = right at same; cases same; rfl
    · intro equal
      rw [equal]
      exact .refl _
  rw [serialize_eq_iff (keysDistinct_of_isScalar leftScalar) (keysDistinct_of_isScalar rightScalar),
    same]
  cases left with
  | array items => exact absurd leftScalar (not_isScalar_array items)
  | object fields => exact absurd leftScalar (not_isScalar_object fields)
  | number number =>
      cases right with
      | array items => exact absurd rightScalar (not_isScalar_array items)
      | object fields => exact absurd rightScalar (not_isScalar_object fields)
      | number other => exact written_number_iff
      | _ => cases number <;> simp [written, strictEqual, writesNull]
  | _ =>
      cases right with
      | array items => exact absurd rightScalar (not_isScalar_array items)
      | object fields => exact absurd rightScalar (not_isScalar_object fields)
      | number other => cases other <;> simp [written, strictEqual, writesNull]
      | _ => simp [written, strictEqual, writesNull]

theorem strictEqual_scalar (identical : Bool) (right : Data) (scalar : isScalar left = true)
    : strictEqual identical left right = strictEqual false left right := by
  cases left with
  | array items => exact absurd scalar (not_isScalar_array items)
  | object fields => exact absurd scalar (not_isScalar_object fields)
  | _ => cases right <;> rfl

theorem strictEqual_different_kinds (identical : Bool) (kinds : isScalar left ≠ isScalar right)
    : strictEqual identical left right = false := by
  cases left <;> cases right <;> first | rfl | exact absurd rfl kinds

theorem isScalar_of_writesNull (null : writesNull value = true)
    : isScalar value = true :=
  (writesNull_iff.mp null).1

/-- Between an alike scalar and another value nothing is exposed. -/
theorem not_prototypeExposed_of_isScalar (scalar : isScalar left = true)
    : ¬ PrototypeExposed left right := by
  intro exposed
  obtain ⟨value, found⟩ := exposed.found
  cases found with
  | here fields => exact not_isScalar_object fields scalar
  | item items => exact not_isScalar_array items scalar
  | field fields => exact not_isScalar_object fields scalar

theorem stableEqual_scalar (identical : Bool) (right : Data) (scalar : isScalar left = true)
    : stableEqual identical left right = strictEqual false left right := by
  have kind : (!(Slot.data left).isObject) = true := scalar
  rw [stableEqual, strictEqual_scalar identical right scalar, kind, Bool.true_or]
  cases strictEqual false left right <;> rfl

theorem stableEqual_objects (leftObject : isScalar left = false)
    (rightObject : isScalar right = false)
    : stableEqual false left right = equalSlot (.data left) (.data right) false := by
  have first : (Slot.data left).isObject = true := by simpa [isScalar] using leftObject
  have second : (Slot.data right).isObject = true := by simpa [isScalar] using rightObject
  have different : strictEqual false left right = false := by
    cases left <;> cases right <;> first | rfl | cases leftObject
  rw [stableEqual, equalSlot_objects first second, first, second, different]
  rfl

theorem stableEqual_identical (object : isScalar value = false)
    : stableEqual true value value = true := by
  have same : strictEqual true value value = true := by
    cases value <;> first | rfl | cases object
  rw [stableEqual, same]
  rfl

theorem stableEqual_different_kinds (identical : Bool) (kinds : isScalar left ≠ isScalar right)
    : stableEqual identical left right = false := by
  rw [stableEqual, strictEqual_different_kinds identical kinds, if_neg Bool.false_ne_true]
  apply if_pos
  by_contra objects
  apply kinds
  simp_all [isScalar]

/-- Equality without texts agrees with equality of the stable texts, unless an own
`__proto__` faces the inherited one and decides, or both values are scalars written as null.
-/
theorem stableEqual_agrees_iff (identical : Bool) (left right : Data)
    (one : identical = true → left = right) (leftKeys : keysDistinct left = true)
    (rightKeys : keysDistinct right = true)
    : (stableEqual identical left right = true ↔ stableStringify left = stableStringify right)
      ↔ ¬ PrototypeExposed left right ∧ ¬ NullsExposed left right := by
  unfold stableStringify
  by_cases kinds : isScalar left = isScalar right
  · by_cases scalar : isScalar left = true
    · rw [stableEqual_scalar identical right scalar,
        serialize_eq_iff_strictEqual scalar (kinds.symm.trans scalar)]
      constructor
      · intro agree
        refine ⟨not_prototypeExposed_of_isScalar scalar, fun exposed => ?_⟩
        have equal := agree.mpr (.inr ⟨exposed.leftNull, exposed.rightNull⟩)
        exact Bool.false_ne_true (exposed.different.symm.trans equal)
      · intro hidden
        refine ⟨.inl, fun text => ?_⟩
        by_contra unequal
        have nulls := text.resolve_left unequal
        exact hidden.2 ⟨nulls.1, nulls.2, Bool.eq_false_iff.mpr unequal⟩
    · have nulls : ¬ NullsExposed left right := fun exposed =>
        scalar (isScalar_of_writesNull exposed.leftNull)
      have object := Bool.eq_false_iff.mpr scalar
      cases identical with
      | true =>
        obtain rfl := one rfl
        have hidden : ¬ PrototypeExposed left left := by
          intro exposed
          obtain ⟨_, found⟩ := exposed.found
          exact not_oneSided_self found rfl
        exact iff_of_true (iff_of_true (stableEqual_identical object) rfl) ⟨hidden, nulls⟩
      | false =>
        rw [stableEqual_objects object (kinds.symm.trans object),
          equalSlot_iff_serialize leftKeys rightKeys]
        exact (and_iff_left nulls).symm
  · have text : serialize left ≠ serialize right :=
      mt (isScalar_of_serialize_eq leftKeys rightKeys) kinds
    have unequal := stableEqual_different_kinds identical kinds
    have hidden : ¬ PrototypeExposed left right := fun exposed => kinds exposed.alike.isScalar_eq
    have nulls : ¬ NullsExposed left right := fun exposed =>
      kinds ((isScalar_of_writesNull exposed.leftNull).trans
        (isScalar_of_writesNull exposed.rightNull).symm)
    rw [unequal]
    exact iff_of_true (iff_of_false Bool.false_ne_true text) ⟨hidden, nulls⟩

/-- The object that `JSON.parse` makes of one own `__proto__`, which is empty. -/
def ownPrototype : Data := .object [(protoKey, .object [])]

/-- An object without keys is equal to it, though their texts differ. -/
theorem stableEqual_ownPrototype
    : stableEqual false (.object []) ownPrototype = true
      ∧ stableStringify (.object []) ≠ stableStringify ownPrototype := by
  have reads : ReadsAsPrototype (.object []) := ⟨[], rfl, fun _ own => absurd own List.not_mem_nil⟩
  have only : OnlyOne [] [(protoKey, .object [])] (.object []) :=
    .inr ⟨List.not_mem_nil, List.mem_cons_self, rfl⟩
  refine ⟨?_, by decide⟩
  rw [ownPrototype, stableEqual_objects rfl rfl, equalSlot_objects rfl rfl,
    equalObject_records rfl rfl]
  intro key own
  obtain rfl := List.mem_singleton.mp own
  exact (equalSlot_onlyOne only).mpr reads

/-- Fields in another order, and one that is undefined. -/
theorem stableEqual_agrees_reordered
    : let left : Data :=
        .object [(units "b", .object [(units "c", .undefined)]), (units "a", .array [.null])]
      let right : Data := .object [(units "a", .array [.null]), (units "b", .object [])]
      stableStringify left = stableStringify right
      ∧ ((stableEqual false left right = true ↔ stableStringify left = stableStringify right)
        ↔ ¬ PrototypeExposed left right ∧ ¬ NullsExposed left right) := by
  intro left right
  refine ⟨by decide +kernel, ?_⟩
  apply stableEqual_agrees_iff false left right
  · exact fun same => absurd same Bool.false_ne_true
  · decide
  · decide

/-- The texts do not decide the comparison of all trees with distinct keys. -/
theorem stableEqual_disagrees
    : ¬ ∀ (identical : Bool) (left right : Data),
        (identical = true → left = right)
        → keysDistinct left = true
        → keysDistinct right = true
        → (stableEqual identical left right = true
          ↔ stableStringify left = stableStringify right) := by
  intro agree
  have agrees := agree false (.object []) ownPrototype
    (fun same => absurd same Bool.false_ne_true) rfl (by decide)
  exact stableEqual_ownPrototype.2 (agrees.mp stableEqual_ownPrototype.1)

end Agreement

end SpeculativeAction.StableJson
