import SpeculativeAction.Library.Validation
import SpeculativeAction.StableJson

/-! Reading the fields of plain records, optional fields among them, and what a JSON round
trip leaves of a value.
-/

namespace SpeculativeAction

open SpeculativeAction.Library

namespace Value

section Reading

/-- `isRecord`: an object that is no array. -/
def record? : Value → Option (List (String × Value))
  | .object fields => some fields
  | _ => none

/-- A missing field reads as undefined. -/
def field (fields : List (String × Value)) (key : String) : Value :=
  ((fields.find? fun entry => decide (entry.1 = key)).map Prod.snd).getD .undefined

variable {α : Type}

/-- A field that may be undefined. -/
def optional (parse : Value → Option α) : Value → Option (Option α)
  | .undefined => some none
  | value => (parse value).map some

/-- An array of records, where it is given. -/
def records (parse : List (String × Value) → Option α) (value : Value)
    : Option (Option (List α)) :=
  optional
    (fun value =>
      match value with
      | .array items => collectAll (fun item => (record? item).bind parse) items
      | _ => none)
    value

def boolean? : Value → Option Bool
  | .bool value => some value
  | _ => none

end Reading

section Writing

/-- The fields that are present. -/
def present (entries : List (String × Option Value)) : List (String × Value) :=
  entries.filterMap fun entry => entry.2.map (entry.1, ·)

/-- A record lists a true flag and leaves out a false one. -/
def flag (value : Bool) : Option Value := if value then some (.bool true) else none

/-- A record that leaves out what is absent reads it as undefined. -/
theorem field_present {entries : List (String × Option Value)}
    (distinct : (entries.map Prod.fst).Nodup) (key : String)
    : field (present entries) key
      = ((entries.find? fun entry => decide (entry.1 = key)).bind Prod.snd).getD .undefined := by
  induction entries with
  | nil => rfl
  | cons entry rest ih =>
      obtain ⟨fresh, tail⟩ := List.nodup_cons.mp distinct
      obtain ⟨name, value⟩ := entry
      have later := ih tail
      cases value with
      | some value =>
          by_cases same : name = key
          · simp [present, field, same]
          · simpa [present, field, same] using later
      | none =>
          by_cases same : name = key
          · subst same
            have absent
                : rest.find? (fun entry => decide (entry.1 = name)) = none := by
              rw [List.find?_eq_none]
              intro entry member named
              exact fresh (List.mem_map.mpr ⟨entry, member, of_decide_eq_true named⟩)
            rw [absent] at later
            simpa [present] using later
          · simpa [present, same] using later

variable {α : Type} {parse : Value → Option α}

theorem optional_getD {write : α → Value} {value : Option α}
    (accepted : ∀ one, value = some one → parse (write one) = some one)
    (defined : ∀ one, write one ≠ .undefined)
    : optional parse ((value.map write).getD .undefined) = some value := by
  cases value with
  | none => rfl
  | some one =>
      have read := accepted one rfl
      rw [Option.map_some, Option.getD_some]
      unfold optional
      split
      next same => exact absurd same (defined one)
      next => rw [read, Option.map_some]

theorem optional_flag (value : Bool)
    : (optional boolean? ((flag value).getD .undefined)).map (·.getD false) = some value := by
  cases value <;> rfl

end Writing

-- JSON

section Json

mutual

/-- `JSON.parse` of `JSON.stringify`: undefined fields are left out, undefined items and
numbers that are not finite become null, and what has no text is none.
-/
def jsonRoundTrip : Value → Option Value
  | .undefined | .foreign => none
  | .null => some .null
  | .bool value => some (.bool value)
  | .string value => some (.string value)
  | .number (.finite value) => some (.number (.finite value))
  | .number _ => some .null
  | .negativeZero => some (.number (.finite 0))
  | .array items => some (.array (itemsRoundTrip items))
  | .object fields => some (.object (fieldsRoundTrip fields))

def itemsRoundTrip : List Value → List Value
  | [] => []
  | item :: rest => (jsonRoundTrip item).getD .null :: itemsRoundTrip rest

def fieldsRoundTrip : List (String × Value) → List (String × Value)
  | [] => []
  | (key, value) :: rest =>
      match jsonRoundTrip value with
      | some value => (key, value) :: fieldsRoundTrip rest
      | none => fieldsRoundTrip rest

end

/-- A value that a JSON round trip returns as it is. -/
def Lossless (value : Value) : Prop := jsonRoundTrip value = some value

theorem lossless_string (text : String) : Lossless (.string text) := rfl

theorem lossless_number (value : ℚ) : Lossless (.number (.finite value)) := rfl

theorem lossless_array {items : List Value} (each : ∀ item ∈ items, Lossless item)
    : Lossless (.array items) := by
  have kept : itemsRoundTrip items = items := by
    induction items with
    | nil => rfl
    | cons item rest ih =>
        have first : jsonRoundTrip item = some item := each item (List.mem_cons_self ..)
        rw [itemsRoundTrip, first, Option.getD_some,
          ih fun other member => each other (List.mem_cons_of_mem _ member)]
  rw [Lossless, jsonRoundTrip, kept]

theorem lossless_object {fields : List (String × Value)}
    (each : ∀ entry ∈ fields, Lossless entry.2)
    : Lossless (.object fields) := by
  have kept : fieldsRoundTrip fields = fields := by
    induction fields with
    | nil => rfl
    | cons entry rest ih =>
        obtain ⟨key, value⟩ := entry
        have first : jsonRoundTrip value = some value := each (key, value) (List.mem_cons_self ..)
        rw [fieldsRoundTrip, first]
        simp only
        rw [ih fun other member => each other (List.mem_cons_of_mem _ member)]
  rw [Lossless, jsonRoundTrip, kept]

theorem lossless_map {α : Type} {write : α → Value} {items : List α}
    (each : ∀ item, Lossless (write item))
    : Lossless (.array (items.map write)) := by
  refine lossless_array fun value member => ?_
  obtain ⟨item, -, rfl⟩ := List.mem_map.mp member
  exact each item

/-- A record is kept where each of its present fields is. -/
theorem lossless_present {entries : List (String × Option Value)}
    (each : ∀ entry ∈ entries, ∀ value, entry.2 = some value → Lossless value)
    : Lossless (.object (present entries)) := by
  refine lossless_object fun entry member => ?_
  obtain ⟨source, listed, shape⟩ := List.mem_filterMap.mp member
  obtain ⟨value, held, rfl⟩ := Option.map_eq_some_iff.mp shape
  exact each source listed value held

end Json

end Value

end SpeculativeAction
