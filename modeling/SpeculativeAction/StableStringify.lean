import Mathlib.Data.List.Lex
import Mathlib.Data.List.Sort
import SpeculativeAction.Library.Json

/-! `stableStringify`: one text for all orders of an object's keys, and for immutable data no
text for two different values.
-/

namespace SpeculativeAction.StableJson

open SpeculativeAction.Library

section Serializer

/-- The canonical decimal text of an array index. Other texts of a number differ from the
text of that number.
-/
def isArrayIndex (value : JsString) : Bool :=
  let index := decimalValue value
  decide (index ≤ 4294967294 ∧ decimalText index = value)

/-- `Object.keys` order: array indices by value, then the other keys as they were created. -/
def ownEntries {α : Type} (fields : List (JsString × α)) : List (JsString × α) :=
  (fields.filter fun field => isArrayIndex field.1).insertionSort
      (fun left right => decimalValue left.1 ≤ decimalValue right.1)
    ++ fields.filter fun field => !isArrayIndex field.1

/-- The named keys after the leading indices are sorted by their code units. -/
def stableEntries {α : Type} (fields : List (JsString × α)) : List (JsString × α) :=
  let entries := ownEntries fields
  entries.takeWhile (fun entry => isArrayIndex entry.1)
    ++ (entries.dropWhile fun entry => isArrayIndex entry.1).insertionSort
        (fun left right => left.1 ≤ right.1)

/-- One field with a serializable value. -/
def entryText (entry : JsString × Option JsString) : Option JsString :=
  entry.2.map fun item => quote entry.1 ++ unit ':' :: item

mutual

/-- `undefined` has no text; it leaves out a field and counts as null in an array. -/
def serialize : Data → Option JsString
  | .undefined => none
  | .null => some (units "null")
  | .bool value => some (boolText value)
  | .number value => some value.text
  | .string value => some (quote value)
  | .array items => some (unit '[' :: (joinComma (serializeItems items) ++ [unit ']']))
  | .object fields =>
      some (unit '\x7b'
        :: (joinComma ((stableEntries (serializeFields fields)).filterMap entryText)
          ++ [unit '\x7d']))

def serializeItems : List Data → List JsString
  | [] => []
  | item :: rest => (serialize item).getD (units "null") :: serializeItems rest

def serializeFields : List (JsString × Data) → List (JsString × Option JsString)
  | [] => []
  | field :: rest => serializeField field :: serializeFields rest

def serializeField : JsString × Data → JsString × Option JsString
  | (key, value) => (key, serialize value)

end

def stableStringify (value : Data) : Option JsString := serialize value

end Serializer

section Snapshots

mutual

/-- `freeze` accepts a tree of lossless values with distinct keys and no `undefined` inside. -/
def isImmutableSnapshot : Data → Bool
  | .undefined | .null | .bool _ | .string _ | .number (.finite _) => true
  | .number _ => false
  | .array items => itemsImmutable items
  | .object fields => decide (fields.map Prod.fst).Nodup && fieldsImmutable fields

def itemsImmutable : List Data → Bool
  | [] => true
  | .undefined :: _ => false
  | item :: rest => isImmutableSnapshot item && itemsImmutable rest

def fieldsImmutable : List (JsString × Data) → Bool
  | [] => true
  | field :: rest => fieldImmutable field && fieldsImmutable rest

def fieldImmutable : JsString × Data → Bool
  | (_, .undefined) => false
  | (_, value) => isImmutableSnapshot value

end

end Snapshots

section Sameness

/-- Read a field; a missing one is `undefined`. -/
def fieldOf (fields : List (JsString × Data)) (key : JsString) : Data :=
  ((fields.find? fun field => field.1 = key).map Prod.snd).getD .undefined

/-- Read a slot of an array. -/
def itemOf (items : List Data) (index : ℕ) : Data := items[index]?.getD .undefined

/-- Equal up to the order of object keys and fields that are `undefined`: reading any field
or slot gives the same.
-/
inductive SameData : Data → Data → Prop where
  | undefined : SameData .undefined .undefined
  | null : SameData .null .null
  | bool (value : Bool) : SameData (.bool value) (.bool value)
  | number (value : JsNumber) : SameData (.number value) (.number value)
  | string (value : JsString) : SameData (.string value) (.string value)
  | array (left right : List Data) (length : left.length = right.length)
    (slots : ∀ index, SameData (itemOf left index) (itemOf right index))
    : SameData (.array left) (.array right)
  | object (left right : List (JsString × Data))
    (fields : ∀ key, SameData (fieldOf left key) (fieldOf right key))
    : SameData (.object left) (.object right)

end Sameness

section Order

variable {α β : Type}

/-- The order of keys in a stable text. -/
def KeyLe (left right : JsString) : Prop :=
  if isArrayIndex left then isArrayIndex right = true → decimalValue left ≤ decimalValue right
  else isArrayIndex right = false ∧ left ≤ right

theorem decimalText_of_isArrayIndex {key : JsString} (index : isArrayIndex key = true)
    : decimalText (decimalValue key) = key :=
  (of_decide_eq_true index).2

theorem KeyLe.antisymm {left right : JsString} (before : KeyLe left right)
    (after : KeyLe right left)
    : left = right := by
  unfold KeyLe at before after
  cases first : isArrayIndex left with
  | true =>
      cases second : isArrayIndex right with
      | true =>
          simp only [first, second, if_true, forall_const] at before after
          rw [← decimalText_of_isArrayIndex first, ← decimalText_of_isArrayIndex second,
            Nat.le_antisymm before after]
      | false =>
          simp [first, second] at after
  | false =>
      simp only [first, Bool.false_eq_true, if_false] at before
      simp only [before.1, Bool.false_eq_true, if_false] at after
      exact le_antisymm before.2 after.2

theorem ownEntries_leading (fields : List (JsString × α))
    : ((ownEntries fields).takeWhile fun entry => isArrayIndex entry.1)
          = (fields.filter fun field => isArrayIndex field.1).insertionSort
              (fun left right => decimalValue left.1 ≤ decimalValue right.1)
        ∧ ((ownEntries fields).dropWhile fun entry => isArrayIndex entry.1)
          = fields.filter fun field => !isArrayIndex field.1 := by
  have indices
      : ∀ entry ∈ (fields.filter fun field => isArrayIndex field.1).insertionSort
            (fun left right => decimalValue left.1 ≤ decimalValue right.1),
          isArrayIndex entry.1 = true := by
    intro entry member
    exact (List.mem_filter.mp ((List.mem_insertionSort _).mp member)).2
  have named
      : ∀ entry ∈ fields.filter fun field => !isArrayIndex field.1,
          isArrayIndex entry.1 = false := by
    intro entry member
    simpa using (List.mem_filter.mp member).2
  unfold ownEntries
  rw [List.takeWhile_append_of_pos indices, List.dropWhile_append_of_pos indices]
  cases rest : fields.filter fun field => !isArrayIndex field.1 with
  | nil => simp
  | cons entry others =>
      have first := named entry (rest ▸ List.mem_cons_self)
      simp [first]

theorem stableEntries_eq (fields : List (JsString × α))
    : stableEntries fields
      = (fields.filter fun field => isArrayIndex field.1).insertionSort
            (fun left right => decimalValue left.1 ≤ decimalValue right.1)
          ++ (fields.filter fun field => !isArrayIndex field.1).insertionSort
            (fun left right => left.1 ≤ right.1) := by
  obtain ⟨leading, remaining⟩ := ownEntries_leading fields
  unfold stableEntries
  dsimp only
  rw [leading, remaining]

/-- Ordering the entries loses none. -/
theorem stableEntries_perm (fields : List (JsString × α)) : (stableEntries fields).Perm fields := by
  rw [stableEntries_eq]
  exact ((List.perm_insertionSort _ _).append (List.perm_insertionSort _ _)).trans
    (List.filter_append_perm _ _)

theorem stableEntries_sorted (fields : List (JsString × α))
    : (stableEntries fields).Pairwise fun left right => KeyLe left.1 right.1 := by
  have byIndex
      : ((fields.filter fun field => isArrayIndex field.1).insertionSort
          (fun left right => decimalValue left.1 ≤ decimalValue right.1)).Pairwise
            fun left right => decimalValue left.1 ≤ decimalValue right.1 := by
    have total
        : Std.Total fun left right : JsString × α =>
            decimalValue left.1 ≤ decimalValue right.1 :=
      ⟨fun _ _ => Nat.le_total _ _⟩
    have transitive
        : IsTrans (JsString × α) fun left right => decimalValue left.1 ≤ decimalValue right.1 :=
      ⟨fun _ _ _ => Nat.le_trans⟩
    exact List.pairwise_insertionSort _ _
  have byName
      : ((fields.filter fun field => !isArrayIndex field.1).insertionSort
          (fun left right => left.1 ≤ right.1)).Pairwise fun left right => left.1 ≤ right.1 := by
    have total : Std.Total fun left right : JsString × α => left.1 ≤ right.1 :=
      ⟨fun _ _ => le_total _ _⟩
    have transitive : IsTrans (JsString × α) fun left right => left.1 ≤ right.1 :=
      ⟨fun _ _ _ => le_trans⟩
    exact List.pairwise_insertionSort _ _
  rw [stableEntries_eq]
  refine List.pairwise_append.mpr ⟨?_, ?_, ?_⟩
  · refine byIndex.imp_of_mem ?_
    intro left right first _ below
    have index := (List.mem_filter.mp ((List.mem_insertionSort _).mp first)).2
    rw [KeyLe, if_pos index]
    exact fun _ => below
  · refine byName.imp_of_mem ?_
    intro left right first second below
    have named := (List.mem_filter.mp ((List.mem_insertionSort _).mp first)).2
    have named' := (List.mem_filter.mp ((List.mem_insertionSort _).mp second)).2
    simp only [Bool.not_eq_true'] at named named'
    rw [KeyLe, if_neg (Bool.eq_false_iff.mp named)]
    exact ⟨named', below⟩
  · intro left first right second
    have index := (List.mem_filter.mp ((List.mem_insertionSort _).mp first)).2
    have named := (List.mem_filter.mp ((List.mem_insertionSort _).mp second)).2
    simp only [Bool.not_eq_true'] at named
    rw [KeyLe, if_pos index]
    intro other
    rw [named] at other
    cases other

/-- Sorted entries with distinct keys are determined by what they contain. -/
theorem eq_of_perm_of_sorted {left right : List (JsString × α)} (perm : left.Perm right)
    (distinct : (right.map Prod.fst).Nodup)
    (first : left.Pairwise fun left right => KeyLe left.1 right.1)
    (second : right.Pairwise fun left right => KeyLe left.1 right.1)
    : left = right := by
  refine List.Perm.eq_of_pairwise ?_ first second perm
  intro entry other member member' before after
  exact List.inj_on_of_nodup_map distinct (perm.mem_iff.mp member) member'
    (before.antisymm after)

/-- Changing or dropping entries by their value does not disturb their order. -/
theorem stableEntries_filterMap (change : JsString × α → Option (JsString × β))
    (kept : ∀ entry changed, change entry = some changed → changed.1 = entry.1)
    {fields : List (JsString × α)} (distinct : (fields.map Prod.fst).Nodup)
    : stableEntries (fields.filterMap change) = (stableEntries fields).filterMap change := by
  have sublist (entries : List (JsString × α))
      : ((entries.filterMap change).map Prod.fst).Sublist (entries.map Prod.fst) := by
    induction entries with
    | nil => exact .slnil
    | cons entry rest ih =>
        cases changed : change entry with
        | none => simpa [List.filterMap_cons, changed] using ih.cons _
        | some other => simpa [List.filterMap_cons, changed, kept entry other changed] using ih
  have perm
      : (stableEntries (fields.filterMap change)).Perm
          ((stableEntries fields).filterMap change) :=
    (stableEntries_perm _).trans ((stableEntries_perm fields).filterMap change).symm
  apply eq_of_perm_of_sorted perm _ (stableEntries_sorted _)
  · refine (stableEntries_sorted fields).filterMap change ?_
    intro left right below first firstChanged second secondChanged
    rwa [kept left first firstChanged, kept right second secondChanged]
  · exact (sublist _).nodup (((stableEntries_perm fields).map Prod.fst).nodup_iff.mpr distinct)

end Order

section Lossless

variable {fields : List (JsString × Data)}

mutual

/-- Immutable data, but a field may also be `undefined`. -/
def isLossless : Data → Bool
  | .undefined | .null | .bool _ | .string _ | .number (.finite _) => true
  | .number _ => false
  | .array items => itemsLossless items
  | .object fields => decide (fields.map Prod.fst).Nodup && fieldsLossless fields

def itemsLossless : List Data → Bool
  | [] => true
  | .undefined :: _ => false
  | item :: rest => isLossless item && itemsLossless rest

def fieldsLossless : List (JsString × Data) → Bool
  | [] => true
  | field :: rest => fieldLossless field && fieldsLossless rest

def fieldLossless : JsString × Data → Bool
  | (_, value) => isLossless value

end

theorem itemsLossless_iff {items : List Data}
    : itemsLossless items = true
      ↔ ∀ item ∈ items, item ≠ .undefined ∧ isLossless item = true := by
  induction items with
  | nil => simp [itemsLossless]
  | cons item rest ih => cases item <;> simp_all [itemsLossless]

theorem fieldsLossless_iff
    : fieldsLossless fields = true ↔ ∀ field ∈ fields, isLossless field.2 = true := by
  induction fields with
  | nil => simp [fieldsLossless]
  | cons field rest ih =>
      obtain ⟨key, value⟩ := field
      simp [fieldsLossless, fieldLossless, ih]

theorem itemsImmutable_iff {items : List Data}
    : itemsImmutable items = true
      ↔ ∀ item ∈ items, item ≠ .undefined ∧ isImmutableSnapshot item = true := by
  induction items with
  | nil => simp [itemsImmutable]
  | cons item rest ih => cases item <;> simp_all [itemsImmutable]

theorem fieldsImmutable_iff
    : fieldsImmutable fields = true
      ↔ ∀ field ∈ fields, field.2 ≠ .undefined ∧ isImmutableSnapshot field.2 = true := by
  induction fields with
  | nil => simp [fieldsImmutable]
  | cons field rest ih =>
      obtain ⟨key, value⟩ := field
      cases value <;> simp_all [fieldsImmutable, fieldImmutable]

theorem isLossless_of_immutable (value : Data) (immutable : isImmutableSnapshot value = true)
    : isLossless value = true := by
  induction value using Data.induct with
  | undefined => rfl
  | null => rfl
  | bool value => rfl
  | string value => rfl
  | number value => cases value <;> first | rfl | cases immutable
  | array items ih =>
      apply itemsLossless_iff.mpr
      intro item member
      obtain ⟨defined, inner⟩ := itemsImmutable_iff.mp immutable item member
      exact ⟨defined, ih item member inner⟩
  | object fields ih =>
      obtain ⟨distinct, inner⟩ := Bool.and_eq_true_iff.mp immutable
      apply Bool.and_eq_true_iff.mpr
      refine ⟨distinct, fieldsLossless_iff.mpr ?_⟩
      intro field member
      exact ih field member (fieldsImmutable_iff.mp inner field member).2

end Lossless

section Canonical

variable {value : Data} {fields : List (JsString × Data)}

mutual

/-- The tree that a stable text lists: fields in stable order, none of them `undefined`. -/
def canonical : Data → Data
  | .array items => .array (canonicalItems items)
  | .object fields => .object (stableEntries (canonicalFields fields))
  | value => value

def canonicalItems : List Data → List Data
  | [] => []
  | item :: rest => canonical item :: canonicalItems rest

def canonicalFields : List (JsString × Data) → List (JsString × Data)
  | [] => []
  | field :: rest => (canonicalField field).toList ++ canonicalFields rest

def canonicalField : JsString × Data → Option (JsString × Data)
  | (_, .undefined) => none
  | (key, value) => some (key, canonical value)

end

theorem canonicalItems_eq (items : List Data) : canonicalItems items = items.map canonical := by
  induction items with
  | nil => rfl
  | cons item rest ih => rw [canonicalItems, ih, List.map_cons]

theorem canonicalFields_eq (fields : List (JsString × Data))
    : canonicalFields fields = fields.filterMap canonicalField := by
  induction fields with
  | nil => rfl
  | cons field rest ih =>
      rw [canonicalFields, ih]
      cases changed : canonicalField field with
      | none => rw [List.filterMap_cons_none changed]; rfl
      | some other => rw [List.filterMap_cons_some changed]; rfl

theorem canonicalField_some {key : JsString} (defined : value ≠ .undefined)
    : canonicalField (key, value) = some (key, canonical value) := by
  cases value with
  | undefined => exact absurd rfl defined
  | _ => rfl

theorem canonicalField_key {field changed : JsString × Data}
    (same : canonicalField field = some changed)
    : changed.1 = field.1
      ∧ changed.2 = canonical field.2
      ∧ field.2 ≠ .undefined := by
  obtain ⟨key, value⟩ := field
  by_cases undefined : value = .undefined
  · rw [undefined] at same
    cases same
  · rw [canonicalField_some undefined] at same
    obtain rfl := Option.some.inj same
    exact ⟨rfl, rfl, undefined⟩

theorem canonical_ne_undefined (defined : value ≠ .undefined)
    : canonical value ≠ .undefined := by
  cases value with
  | undefined => exact absurd rfl defined
  | _ => simp [canonical]

theorem serializeItems_eq (items : List Data)
    : serializeItems items = items.map fun item => (serialize item).getD (units "null") := by
  induction items with
  | nil => rfl
  | cons item rest ih => rw [serializeItems, ih, List.map_cons]

theorem serializeFields_eq (fields : List (JsString × Data))
    : serializeFields fields = fields.filterMap fun field => some (serializeField field) := by
  induction fields with
  | nil => rfl
  | cons field rest ih => simp [serializeFields, ih]

theorem writeItems_eq (items : List Data) : writeItems items = items.map writeData := by
  induction items with
  | nil => rfl
  | cons item rest ih => rw [writeItems, ih, List.map_cons]

theorem writeFields_eq (fields : List (JsString × Data))
    : writeFields fields = fields.map writeField := by
  induction fields with
  | nil => rfl
  | cons field rest ih => rw [writeFields, ih, List.map_cons]

/-- The entries of a canonical object are the defined fields in stable order. -/
theorem stableEntries_canonicalFields (distinct : (fields.map Prod.fst).Nodup)
    : stableEntries (canonicalFields fields)
      = (stableEntries fields).filterMap canonicalField := by
  rw [canonicalFields_eq]
  exact stableEntries_filterMap canonicalField
    (fun field changed same => (canonicalField_key same).1) distinct

/-- The text of a value is the text of its canonical tree, by induction over the tree. -/
theorem serialize_eq_writeData (value : Data) (lossless : isLossless value = true)
    (defined : value ≠ .undefined)
    : serialize value = some (writeData (canonical value)) := by
  induction value using Data.induct with
  | undefined => exact absurd rfl defined
  | null => rfl
  | bool value => rfl
  | string value => rfl
  | number value => rfl
  | array items ih =>
      have texts : serializeItems items = writeItems (canonicalItems items) := by
        rw [serializeItems_eq, canonicalItems_eq, writeItems_eq, List.map_map]
        apply List.map_congr_left
        intro item member
        obtain ⟨defined, inner⟩ := itemsLossless_iff.mp lossless item member
        rw [ih item member inner defined]
        rfl
      rw [serialize, canonical, writeData, texts]
  | object fields ih =>
      obtain ⟨distinct, inner⟩ := Bool.and_eq_true_iff.mp lossless
      have texts
          : (stableEntries (serializeFields fields)).filterMap entryText
            = writeFields (stableEntries (canonicalFields fields)) := by
        rw [stableEntries_canonicalFields (of_decide_eq_true distinct), serializeFields_eq,
          stableEntries_filterMap _ _ (of_decide_eq_true distinct), List.filterMap_filterMap,
          writeFields_eq, List.map_filterMap]
        · apply List.filterMap_congr
          intro field ordered
          have member := (stableEntries_perm fields).mem_iff.mp ordered
          have fieldLossless := fieldsLossless_iff.mp inner field member
          obtain ⟨key, value⟩ := field
          by_cases undefined : value = .undefined
          · rw [undefined]
            rfl
          · rw [canonicalField_some undefined, Option.bind_some, serializeField,
              ih (key, value) member fieldLossless undefined]
            rfl
        · intro field changed same
          rw [← Option.some.inj same]
          cases field
          rfl
      rw [serialize, canonical, writeData, texts]

theorem keys_canonicalFields (distinct : (fields.map Prod.fst).Nodup)
    : ((stableEntries (canonicalFields fields)).map Prod.fst).Nodup := by
  refine ((stableEntries_perm _).map Prod.fst).nodup_iff.mpr ?_
  refine List.Sublist.nodup ?_ distinct
  clear distinct
  induction fields with
  | nil => exact .slnil
  | cons field rest ih =>
      cases changed : canonicalField field with
      | none => simpa [canonicalFields, changed] using ih.cons _
      | some other =>
          simpa [canonicalFields, changed, (canonicalField_key changed).1] using ih

/-- The canonical tree is one of JSON values, by induction over the tree. -/
theorem isJson_canonical (value : Data) (lossless : isLossless value = true)
    (defined : value ≠ .undefined)
    : (canonical value).isJson = true := by
  induction value using Data.induct with
  | undefined => exact absurd rfl defined
  | null => rfl
  | bool value => rfl
  | string value => rfl
  | number value => cases value <;> first | rfl | cases lossless
  | array items ih =>
      apply Data.itemsJson_iff.mpr
      intro item member
      rw [canonicalItems_eq] at member
      obtain ⟨source, sourceMember, rfl⟩ := List.mem_map.mp member
      obtain ⟨defined, inner⟩ := itemsLossless_iff.mp lossless source sourceMember
      exact ih source sourceMember inner defined
  | object fields ih =>
      obtain ⟨distinct, inner⟩ := Bool.and_eq_true_iff.mp lossless
      apply Bool.and_eq_true_iff.mpr
      refine ⟨decide_eq_true (keys_canonicalFields (of_decide_eq_true distinct)), ?_⟩
      apply Data.fieldsJson_iff.mpr
      intro field member
      rw [stableEntries_canonicalFields (of_decide_eq_true distinct)] at member
      obtain ⟨source, ordered, changed⟩ := List.mem_filterMap.mp member
      have sourceMember := (stableEntries_perm fields).mem_iff.mp ordered
      obtain ⟨_, same, defined⟩ := canonicalField_key changed
      rw [same]
      exact ih source sourceMember (fieldsLossless_iff.mp inner source sourceMember) defined

/-- A stable text is parsed as the canonical tree. -/
theorem jsonParse_stableStringify (lossless : isLossless value = true)
    (defined : value ≠ .undefined)
    : (stableStringify value).bind jsonParse = some (canonical value) := by
  rw [stableStringify, serialize_eq_writeData value lossless defined, Option.bind_some]
  exact jsonParse_writeData (isJson_canonical value lossless defined)

end Canonical

section Fields

variable {fields : List (JsString × Data)} {key : JsString}

theorem fieldOf_of_mem {value : Data} (distinct : (fields.map Prod.fst).Nodup)
    (member : (key, value) ∈ fields)
    : fieldOf fields key = value := by
  have found : (fields.find? fun field => field.1 = key) = some (key, value) := by
    induction fields with
    | nil => cases member
    | cons field rest ih =>
        obtain ⟨fresh, later⟩ := List.nodup_cons.mp distinct
        rcases List.mem_cons.mp member with same | member
        · rw [← same]
          simp
        · have different : field.1 ≠ key := by
            intro same
            exact fresh (same ▸ List.mem_map.mpr ⟨_, member, rfl⟩)
          simpa [different] using ih later member
  rw [fieldOf, found]
  rfl

theorem fieldOf_of_not_mem (missing : key ∉ fields.map Prod.fst)
    : fieldOf fields key = .undefined := by
  have absent : (fields.find? fun field => field.1 = key) = none := by
    rw [List.find?_eq_none]
    intro field member same
    exact missing (List.mem_map.mpr ⟨field, member, of_decide_eq_true same⟩)
  rw [fieldOf, absent]
  rfl

theorem mem_of_fieldOf {value : Data} (read : fieldOf fields key = value)
    (defined : value ≠ .undefined)
    : (key, value) ∈ fields := by
  unfold fieldOf at read
  cases found : fields.find? fun field => field.1 = key with
  | none =>
      rw [found] at read
      exact absurd read.symm defined
  | some field =>
      rw [found] at read
      have same : field.1 = key := by simpa using List.find?_some found
      have member := List.mem_of_find?_eq_some found
      obtain ⟨name, other⟩ := field
      dsimp only at same
      rw [← same, ← show other = value from read]
      exact member

theorem isLossless_fieldOf (lossless : fieldsLossless fields = true) (key : JsString)
    : isLossless (fieldOf fields key) = true := by
  by_cases undefined : fieldOf fields key = .undefined
  · rw [undefined]
    rfl
  · exact fieldsLossless_iff.mp lossless _ (mem_of_fieldOf rfl undefined)

theorem isLossless_itemOf {items : List Data} (lossless : itemsLossless items = true) (index : ℕ)
    : isLossless (itemOf items index) = true := by
  unfold itemOf
  cases found : items[index]? with
  | none => rfl
  | some item => exact (itemsLossless_iff.mp lossless item (List.mem_of_getElem? found)).2

/-- A field of the canonical tree is the canonical field. -/
theorem fieldOf_canonical (distinct : (fields.map Prod.fst).Nodup) (key : JsString)
    : fieldOf (stableEntries (canonicalFields fields)) key = canonical (fieldOf fields key) := by
  have entries (entry : JsString × Data)
      : entry ∈ stableEntries (canonicalFields fields)
        ↔ ∃ field ∈ fields, canonicalField field = some entry := by
    rw [(stableEntries_perm _).mem_iff, canonicalFields_eq, List.mem_filterMap]
  by_cases undefined : fieldOf fields key = .undefined
  · rw [undefined]
    apply fieldOf_of_not_mem
    intro present
    obtain ⟨entry, member, same⟩ := List.mem_map.mp present
    obtain ⟨field, source, changed⟩ := (entries entry).mp member
    obtain ⟨name, _, defined⟩ := canonicalField_key changed
    apply defined
    rw [← undefined]
    refine (fieldOf_of_mem distinct ?_).symm
    rwa [← same, name]
  · apply fieldOf_of_mem (keys_canonicalFields distinct)
    exact (entries _).mpr ⟨_, mem_of_fieldOf rfl undefined, canonicalField_some undefined⟩

/-- No field of a canonical object is `undefined`. -/
theorem defined_canonicalFields {entry : JsString × Data}
    (member : entry ∈ stableEntries (canonicalFields fields))
    : entry.2 ≠ .undefined := by
  rw [(stableEntries_perm _).mem_iff, canonicalFields_eq] at member
  obtain ⟨field, _, changed⟩ := List.mem_filterMap.mp member
  obtain ⟨_, same, defined⟩ := canonicalField_key changed
  rw [same]
  exact canonical_ne_undefined defined

/-- Canonical objects whose fields read the same are one. -/
theorem eq_of_fieldOf_eq {left right : List (JsString × Data)}
    (distinct : ((stableEntries (canonicalFields left)).map Prod.fst).Nodup)
    (distinct' : ((stableEntries (canonicalFields right)).map Prod.fst).Nodup)
    (same
      : ∀ key,
          fieldOf (stableEntries (canonicalFields left)) key
          = fieldOf (stableEntries (canonicalFields right)) key)
    : stableEntries (canonicalFields left) = stableEntries (canonicalFields right) := by
  have perm : (stableEntries (canonicalFields left)).Perm (stableEntries (canonicalFields right)) := by
    rw [List.perm_ext_iff_of_nodup (.of_map _ distinct) (.of_map _ distinct')]
    intro entry
    constructor
    · intro member
      exact mem_of_fieldOf ((same entry.1).symm.trans (fieldOf_of_mem distinct member))
        (defined_canonicalFields member)
    · intro member
      exact mem_of_fieldOf ((same entry.1).trans (fieldOf_of_mem distinct' member))
        (defined_canonicalFields member)
  exact eq_of_perm_of_sorted perm distinct' (stableEntries_sorted _) (stableEntries_sorted _)

theorem itemOf_canonical (items : List Data) (index : ℕ)
    : itemOf (canonicalItems items) index = canonical (itemOf items index) := by
  unfold itemOf
  rw [canonicalItems_eq, List.getElem?_map]
  cases items[index]? <;> rfl

end Fields

namespace SameData

theorem symm {left right : Data} (same : SameData left right) : SameData right left := by
  induction same with
  | undefined => exact .undefined
  | null => exact .null
  | bool value => exact .bool value
  | number value => exact .number value
  | string value => exact .string value
  | array left right length _ ih => exact .array right left length.symm ih
  | object left right _ ih => exact .object right left ih

theorem trans {left middle right : Data} (first : SameData left middle)
    (second : SameData middle right)
    : SameData left right := by
  induction first generalizing right with
  | undefined => exact second
  | null => exact second
  | bool value => exact second
  | number value => exact second
  | string value => exact second
  | array left middle length _ ih =>
      cases second with
      | array _ right length' slots =>
          exact .array left right (length.trans length') fun index => ih index (slots index)
  | object left middle _ ih =>
      cases second with
      | object _ right fields => exact .object left right fun key => ih key (fields key)

/-- A value is the same as its canonical tree, by induction over the tree. -/
theorem canonical (value : Data) (lossless : isLossless value = true)
    : SameData value (canonical value) := by
  induction value using Data.induct with
  | undefined => exact .undefined
  | null => exact .null
  | bool value => exact .bool value
  | string value => exact .string value
  | number value => exact .number value
  | array items ih =>
      refine .array items (canonicalItems items) (by rw [canonicalItems_eq, List.length_map]) ?_
      intro index
      rw [itemOf_canonical]
      unfold itemOf
      cases found : items[index]? with
      | none => exact .undefined
      | some item =>
          have member := List.mem_of_getElem? found
          exact ih item member (itemsLossless_iff.mp lossless item member).2
  | object fields ih =>
      obtain ⟨distinct, inner⟩ := Bool.and_eq_true_iff.mp lossless
      refine .object fields (stableEntries (canonicalFields fields)) ?_
      intro key
      rw [fieldOf_canonical (of_decide_eq_true distinct)]
      by_cases undefined : fieldOf fields key = .undefined
      · rw [undefined]
        exact .undefined
      · have member := mem_of_fieldOf rfl undefined
        exact ih _ member (fieldsLossless_iff.mp inner _ member)

theorem refl (value : Data) : SameData value value := by
  induction value using Data.induct with
  | undefined => exact .undefined
  | null => exact .null
  | bool value => exact .bool value
  | string value => exact .string value
  | number value => exact .number value
  | array items ih =>
      refine .array items items rfl ?_
      intro index
      unfold itemOf
      cases found : items[index]? with
      | none => exact .undefined
      | some item => exact ih item (List.mem_of_getElem? found)
  | object fields ih =>
      refine .object fields fields ?_
      intro key
      by_cases undefined : fieldOf fields key = .undefined
      · rw [undefined]
        exact .undefined
      · exact ih _ (mem_of_fieldOf rfl undefined)

/-- Reordering the fields of an object keeps what it says. -/
theorem of_perm {left right : List (JsString × Data)} (perm : left.Perm right)
    (distinct : (right.map Prod.fst).Nodup)
    : SameData (.object left) (.object right) := by
  refine .object left right ?_
  intro key
  have same : fieldOf left key = fieldOf right key := by
    by_cases undefined : fieldOf left key = .undefined
    · by_cases undefined' : fieldOf right key = .undefined
      · rw [undefined, undefined']
      · refine fieldOf_of_mem ((perm.map Prod.fst).nodup_iff.mpr distinct) ?_
        exact perm.mem_iff.mpr (mem_of_fieldOf rfl undefined')
    · exact (fieldOf_of_mem distinct (perm.mem_iff.mp (mem_of_fieldOf rfl undefined))).symm
  rw [same]
  exact refl _

theorem undefined_iff {left right : Data} (same : SameData left right)
    : left = .undefined ↔ right = .undefined := by
  cases same <;> simp

/-- Values that read the same have one canonical tree. -/
theorem canonical_eq {left right : Data} (same : SameData left right)
    (first : isLossless left = true) (second : isLossless right = true)
    : StableJson.canonical left = StableJson.canonical right := by
  induction same with
  | undefined => rfl
  | null => rfl
  | bool value => rfl
  | number value => rfl
  | string value => rfl
  | array left right length _ ih =>
      have items : canonicalItems left = canonicalItems right := by
        rw [canonicalItems_eq, canonicalItems_eq]
        apply List.ext_getElem (by simp [length])
        intro index before after
        rw [List.length_map] at before after
        have slot := ih index (isLossless_itemOf first index) (isLossless_itemOf second index)
        simpa [itemOf, before, after] using slot
      rw [StableJson.canonical, StableJson.canonical, items]
  | object left right fields ih =>
      obtain ⟨distinct, inner⟩ := Bool.and_eq_true_iff.mp first
      obtain ⟨distinct', inner'⟩ := Bool.and_eq_true_iff.mp second
      have keys := keys_canonicalFields (of_decide_eq_true distinct)
      have keys' := keys_canonicalFields (of_decide_eq_true distinct')
      have entries := eq_of_fieldOf_eq keys keys' fun key => by
        rw [fieldOf_canonical (of_decide_eq_true distinct),
          fieldOf_canonical (of_decide_eq_true distinct')]
        exact ih key (isLossless_fieldOf inner key) (isLossless_fieldOf inner' key)
      rw [StableJson.canonical, StableJson.canonical, entries]

end SameData

/-- Lossless values have one text exactly when they read the same. -/
theorem stableStringify_eq_iff_of_lossless {left right : Data} (first : isLossless left = true)
    (second : isLossless right = true)
    : stableStringify left = stableStringify right ↔ SameData left right := by
  by_cases undefined : left = .undefined
  · by_cases undefined' : right = .undefined
    · rw [undefined, undefined']
      exact ⟨fun _ => .undefined, fun _ => rfl⟩
    · constructor
      · intro texts
        rw [undefined, stableStringify, stableStringify,
          serialize_eq_writeData right second undefined'] at texts
        cases texts
      · intro same
        exact absurd (same.undefined_iff.mp undefined) undefined'
  · by_cases undefined' : right = .undefined
    · constructor
      · intro texts
        rw [undefined', stableStringify, stableStringify,
          serialize_eq_writeData left first undefined] at texts
        cases texts
      · intro same
        exact absurd (same.undefined_iff.mpr undefined') undefined
    · constructor
      · intro texts
        have parsed := jsonParse_stableStringify first undefined
        rw [texts, jsonParse_stableStringify second undefined'] at parsed
        have canonicals := Option.some.inj parsed
        have toCanonical := SameData.canonical left first
        rw [← canonicals] at toCanonical
        exact toCanonical.trans (SameData.canonical right second).symm
      · intro same
        rw [stableStringify, stableStringify, serialize_eq_writeData left first undefined,
          serialize_eq_writeData right second undefined', same.canonical_eq first second]

end SpeculativeAction.StableJson
