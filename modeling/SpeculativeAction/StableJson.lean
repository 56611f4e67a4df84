import SpeculativeAction.Numbers

/-! Plain data values: which ones can carry an immutable execution identity, and when two
of them are deeply equal.
-/

namespace SpeculativeAction

/-- A value as a producer can hand it over. An object lists its enumerable keys in order;
`foreign` stands for everything that no clone makes plain tree data of (functions, dates, sparse
arrays, shared or cyclic references); of another class instance the clone is the plain object of
its own fields, which stands for it here.
-/
inductive Value where
  | undefined
  | null
  | bool (value : Bool)
  | string (value : String)
  | number (value : Number)
  | negativeZero
  | array (items : List Value)
  | object (fields : List (String × Value))
  | foreign

namespace Value

mutual

/-- Only lossless data trees are immutable snapshots; `undefined` is one on its own but
never inside another value.
-/
def isImmutable : Value → Bool
  | .undefined | .null | .bool _ | .string _ => true
  | .number value => value.isFiniteNumber
  | .negativeZero | .foreign => false
  | .array items => itemsImmutable items
  | .object fields => decide (fields.map Prod.fst).Nodup && fieldsImmutable fields

def itemsImmutable : List Value → Bool
  | [] => true
  | .undefined :: _ => false
  | item :: rest => item.isImmutable && itemsImmutable rest

def fieldsImmutable : List (String × Value) → Bool
  | [] => true
  | field :: rest => fieldImmutable field && fieldsImmutable rest

def fieldImmutable : String × Value → Bool
  | (_, .undefined) => false
  | (_, value) => value.isImmutable

end

mutual

/-- Deep strict equality: arrays item by item, objects by key whatever the key order. -/
def isDeepStrictEqual : Value → Value → Bool
  | .undefined, .undefined => true
  | .null, .null => true
  | .bool left, .bool right => left == right
  | .string left, .string right => left == right
  | .number left, .number right => left == right
  | .negativeZero, .negativeZero => true
  | .array left, .array right => itemsEqual left right
  | .object left, .object right => left.length == right.length && fieldsEqual left right
  | _, _ => false
termination_by structural value => value

def itemsEqual : List Value → List Value → Bool
  | [], [] => true
  | left :: lefts, right :: rights => left.isDeepStrictEqual right && itemsEqual lefts rights
  | _, _ => false
termination_by structural items => items

/-- Every left field has a deeply equal right field of its key. -/
def fieldsEqual : List (String × Value) → List (String × Value) → Bool
  | [], _ => true
  | field :: rest, right => fieldEqual field right && fieldsEqual rest right
termination_by structural fields => fields

def fieldEqual : String × Value → List (String × Value) → Bool
  | (key, value), right =>
      match right.find? (fun field => field.1 == key) with
      | some (_, other) => value.isDeepStrictEqual other
      | none => false
termination_by structural field => field

end

mutual

/-- Immutable data is deeply equal to itself, by induction over the tree. -/
theorem isDeepStrictEqual_self (value : Value) (immutable : value.isImmutable)
    : value.isDeepStrictEqual value := by
  cases value with
  | undefined | null | bool | string | number | negativeZero => simp [isDeepStrictEqual]
  | foreign => cases immutable
  | array items => exact itemsEqual_self items immutable
  | object fields =>
      simp only [isImmutable, Bool.and_eq_true, decide_eq_true_eq] at immutable
      simp only [isDeepStrictEqual, beq_self_eq_true, Bool.true_and]
      exact fieldsEqual_self fields fields immutable.1 (List.Sublist.refl _) immutable.2

theorem itemsEqual_self (items : List Value) (immutable : itemsImmutable items)
    : itemsEqual items items := by
  cases items with
  | nil => rfl
  | cons item rest =>
      have parts : item.isImmutable ∧ itemsImmutable rest := by
        cases item <;> simp_all [itemsImmutable]
      simp [itemsEqual, isDeepStrictEqual_self item parts.1, itemsEqual_self rest parts.2]

theorem fieldsEqual_self (fields whole : List (String × Value))
    (distinct : (whole.map Prod.fst).Nodup) (included : fields.Sublist whole)
    (immutable : fieldsImmutable fields)
    : fieldsEqual fields whole := by
  cases fields with
  | nil => rfl
  | cons field rest =>
      simp only [fieldsImmutable, Bool.and_eq_true] at immutable
      have head := fieldEqual_self field whole distinct (included.subset (by simp)) immutable.1
      have tail := fieldsEqual_self rest whole distinct
        ((List.sublist_cons_self field rest).trans included) immutable.2
      simp [fieldsEqual, head, tail]

theorem fieldEqual_self (field : String × Value) (whole : List (String × Value))
    (distinct : (whole.map Prod.fst).Nodup) (member : field ∈ whole)
    (immutable : fieldImmutable field)
    : fieldEqual field whole := by
  obtain ⟨key, value⟩ := field
  have found : whole.find? (fun field => field.1 == key) = some (key, value) := by
    clear immutable
    induction whole with
    | nil => cases member
    | cons head rest ih =>
        obtain ⟨fresh, tail⟩ := List.nodup_cons.mp distinct
        rcases List.mem_cons.mp member with rfl | later
        · simp
        · have different : head.1 ≠ key := fun same =>
            fresh (same ▸ List.mem_map.mpr ⟨_, later, rfl⟩)
          simpa [List.find?_cons, different] using ih tail later
  have inner : value.isImmutable := by cases value <;> simp_all [fieldImmutable]
  simp [fieldEqual, found, isDeepStrictEqual_self value inner]

end

end Value

/-- An owned value that is an immutable snapshot. -/
structure Snapshot where
  value : Value
  immutable : value.isImmutable = true

/-- Own a value; only lossless data trees are accepted. -/
def immutableSnapshot (value : Value) : Option Snapshot :=
  if immutable : value.isImmutable = true then some ⟨value, immutable⟩ else none

namespace Snapshot

def isDeepStrictEqual (left right : Snapshot) : Bool := left.value.isDeepStrictEqual right.value

@[simp] theorem isDeepStrictEqual_self (snapshot : Snapshot)
    : snapshot.isDeepStrictEqual snapshot = true :=
  Value.isDeepStrictEqual_self snapshot.value snapshot.immutable

end Snapshot

end SpeculativeAction
