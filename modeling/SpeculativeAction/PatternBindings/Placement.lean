import SpeculativeAction.PatternBindings.Paths

/-! Values placed at paths apart from one another are all read back: writing at one path keeps what
is owned at the others.
-/

namespace SpeculativeAction.PatternBindings

open SpeculativeAction.Library

-- What data owns at a path

section Owned

local instance lawfulBEqOwned : LawfulBEq JsString := inferInstance

/-- What the data itself has at a segment: nothing that is inherited. -/
def ownStep (current : Data) (segment : Segment) : Option Data :=
  match current, segment with
  | .array items, .index position => items[position]?
  | .object fields, .key name =>
      if name ∈ fields.map Prod.fst then some (StableJson.fieldOf fields name) else none
  | _, _ => none

def ownPath (value : Data) (segments : Path) : Option Data := segments.foldlM ownStep value

variable {value child : Data} {segment : Segment} {path : Path}

theorem ownPath_cons
    : ownPath value (segment :: path) = (ownStep value segment).bind (ownPath · path) := rfl

theorem step_of_ownStep (own : ownStep value segment = some child)
    : (Reached.data value).step segment = some (.data child) := by
  cases value with
  | array items =>
      cases segment with
      | index position =>
          change (items[position]?).map Reached.data = _
          rw [show items[position]? = some child from own]
          rfl
      | key name => cases own
  | object fields =>
      cases segment with
      | index position => cases own
      | key name =>
          rw [ownStep] at own
          split at own
          · next member =>
              obtain rfl := Option.some.inj own
              exact if_pos member
          · cases own
  | _ => cases segment <;> cases own

/-- What is owned at a path is what is read there. -/
theorem getPath_of_ownPath {result : Data} (own : ownPath value path = some result)
    : getPath value path = some result := by
  have steps : path.foldlM Reached.step (.data value) = some (.data result) := by
    induction path generalizing value with
    | nil =>
        obtain rfl : value = result := Option.some.inj own
        rfl
    | cons segment rest ih =>
        obtain ⟨child, here, later⟩ := Option.bind_eq_some_iff.mp own
        rw [List.foldlM_cons, step_of_ownStep here]
        exact ih later
  rw [getPath, steps]
  rfl

theorem readSegment_of_ownStep (own : ownStep value segment = some child)
    : readSegment value segment = child := by
  cases value with
  | array items =>
      cases segment with
      | index position =>
          rw [readSegment, StableJson.itemOf, show items[position]? = some child from own]
          rfl
      | key name => cases own
  | object fields =>
      cases segment with
      | index position => cases own
      | key name =>
          rw [ownStep] at own
          split at own
          · exact Option.some.inj own
          · cases own
  | _ => cases segment <;> cases own

end Owned

-- Writing a segment

section Segments

def Segment.isIndex : Segment → Bool
  | .index _ => true
  | .key _ => false

/-- An index is that of an array item. -/
def Segment.Addressable : Segment → Prop
  | .index position => position < 4294967295
  | .key _ => True

theorem fieldOf_setField (fields : List (JsString × Data)) (name key : JsString) (child : Data)
    : StableJson.fieldOf (setField fields name child) key
      = if key = name then child else StableJson.fieldOf fields key := by
  induction fields with
  | nil =>
      by_cases same : key = name
      · simp [setField, OrderedMap.setEntries, StableJson.fieldOf, same]
      · simp [setField, OrderedMap.setEntries, StableJson.fieldOf, same, Ne.symm same]
  | cons field rest ih =>
      obtain ⟨first, value⟩ := field
      by_cases here : first = name
      · subst here
        by_cases same : key = first
        · simp [setField, OrderedMap.setEntries, StableJson.fieldOf, same]
        · simp [setField, OrderedMap.setEntries, StableJson.fieldOf, same, Ne.symm same]
      · by_cases found : first = key
        · subst found
          simp [setField, OrderedMap.setEntries, StableJson.fieldOf, here]
        · simpa [setField, OrderedMap.setEntries, StableJson.fieldOf, here, found] using ih

theorem mem_keys_setField {fields : List (JsString × Data)} {name key : JsString} {child : Data}
    : key ∈ (setField fields name child).map Prod.fst ↔ key = name ∨ key ∈ fields.map Prod.fst :=
  OrderedMap.mem_keys_setEntries

theorem getElem?_setItem (items : List Data) {position : ℕ} (item : position < 4294967295)
    (index : ℕ) (child : Data)
    : (setItem items position child)[index]?
      = if index = position then some child
        else if index < items.length then items[index]?
        else if index < position then some .undefined else none := by
  rw [setItem, if_pos item, List.getElem?_set]
  grind

variable {value child : Data} {segment other : Segment}

/-- A written segment owns its child. -/
theorem ownStep_writeSegment (addressable : segment.Addressable)
    : ownStep (writeSegment value segment child) segment = some child := by
  cases segment with
  | index position =>
      have written (items : List Data) : (setItem items position child)[position]? = some child := by
        rw [getElem?_setItem items addressable, if_pos rfl]
      cases value <;> exact written _
  | key name =>
      have written (fields : List (JsString × Data))
          : ownStep (.object (setField fields name child)) (.key name) = some child := by
        rw [ownStep, if_pos (mem_keys_setField.mpr (.inl rfl)), fieldOf_setField, if_pos rfl]
      cases value <;> exact written _

/-- Another segment of the same kind keeps what it owns. -/
theorem ownStep_writeSegment_of_ne {kept : Data} (addressable : segment.Addressable)
    (different : other ≠ segment) (kind : other.isIndex = segment.isIndex)
    (own : ownStep value other = some kept)
    : ownStep (writeSegment value segment child) other = some kept := by
  cases value with
  | array items =>
      cases other with
      | key name => cases own
      | index index =>
          cases segment with
          | key name => cases kind
          | index position =>
              have found : items[index]? = some kept := own
              have inside : index < items.length := (List.getElem?_eq_some_iff.mp found).1
              have apart : index ≠ position := fun same => different (same ▸ rfl)
              change (setItem items position child)[index]? = some kept
              rw [getElem?_setItem items addressable, if_neg apart, if_pos inside, found]
  | object fields =>
      cases other with
      | index index => cases own
      | key name =>
          cases segment with
          | index position => cases kind
          | key key =>
              have apart : name ≠ key := fun same => different (same ▸ rfl)
              rw [ownStep] at own
              split at own
              · next member =>
                  change ownStep (.object (setField fields key child)) (.key name) = some kept
                  rw [ownStep, if_pos (mem_keys_setField.mpr (.inr member)), fieldOf_setField,
                    if_neg apart]
                  exact own
              · cases own
  | _ => cases other <;> cases own

end Segments

-- Writing a path

section Writing

variable {placed : List (Path × Data)}

/-- Neither path leads through the other, and where they part both go on with an index or both
with a key.
-/
structure Apart (left right : Path) : Prop where
  notBefore : ¬ left <+: right
  notBehind : ¬ right <+: left
  kinds
    : ∀ shared first second,
        shared ++ [first] <+: left → shared ++ [second] <+: right → first.isIndex = second.isIndex

namespace Apart

variable {left right : Path} {first second : Segment}

theorem symm (apart : Apart left right) : Apart right left :=
  ⟨apart.notBehind, apart.notBefore, fun shared first second inRight inLeft =>
    (apart.kinds shared second first inLeft inRight).symm⟩

theorem kind (apart : Apart (first :: left) (second :: right)) : first.isIndex = second.isIndex :=
  apart.kinds [] first second (List.cons_prefix_cons.mpr ⟨rfl, List.nil_prefix⟩)
    (List.cons_prefix_cons.mpr ⟨rfl, List.nil_prefix⟩)

theorem tail (apart : Apart (first :: left) (first :: right)) : Apart left right where
  notBefore before := apart.notBefore (List.cons_prefix_cons.mpr ⟨rfl, before⟩)
  notBehind behind := apart.notBehind (List.cons_prefix_cons.mpr ⟨rfl, behind⟩)
  kinds shared one two inLeft inRight :=
    apart.kinds (first :: shared) one two (List.cons_prefix_cons.mpr ⟨rfl, inLeft⟩)
      (List.cons_prefix_cons.mpr ⟨rfl, inRight⟩)

end Apart

def Addressable (path : Path) : Prop := ∀ segment ∈ path, segment.Addressable

variable {current value kept : Data} {path other : Path}

theorem ownPath_withPath (some_ : path ≠ []) (addressable : Addressable path)
    : ownPath (withPath current path value) path = some value := by
  induction path generalizing current with
  | nil => exact absurd rfl some_
  | cons segment rest ih =>
      obtain ⟨here, later⟩ := List.forall_mem_cons.mp addressable
      cases rest with
      | nil =>
          rw [withPath, ownPath_cons, ownStep_writeSegment here]
          rfl
      | cons next rest =>
          rw [withPath, ownPath_cons, ownStep_writeSegment here]
          exact ih (List.cons_ne_nil _ _) later

/-- Writing at one path keeps what is owned at a path apart from it. -/
theorem ownPath_withPath_of_apart (addressable : Addressable path) (apart : Apart path other)
    (own : ownPath current other = some kept)
    : ownPath (withPath current path value) other = some kept := by
  induction path generalizing current other with
  | nil => exact own
  | cons segment rest ih =>
      obtain ⟨here, later⟩ := List.forall_mem_cons.mp addressable
      cases other with
      | nil => exact absurd List.nil_prefix apart.notBehind
      | cons next others =>
          obtain ⟨child, step, below⟩ := Option.bind_eq_some_iff.mp own
          by_cases same : next = segment
          · subst same
            cases rest with
            | nil =>
                exact absurd (List.cons_prefix_cons.mpr ⟨rfl, List.nil_prefix⟩) apart.notBefore
            | cons further rest =>
                rw [withPath, readSegment_of_ownStep step, ownPath_cons, ownStep_writeSegment here]
                exact ih later apart.tail below
          · have unchanged (written : Data)
                : ownStep (writeSegment current segment written) next = some child :=
              ownStep_writeSegment_of_ne here same apart.kind.symm step
            cases rest with
            | nil =>
                rw [withPath, ownPath_cons, unchanged]
                exact below
            | cons further rest =>
                rw [withPath, ownPath_cons, unchanged]
                exact below

/-- The data with every value written at its path. -/
def withPaths (current : Data) (placed : List (Path × Data)) : Data :=
  placed.foldl (fun result place => withPath result place.1 place.2) current

theorem ownPath_withPaths_of_apart (addressable : ∀ place ∈ placed, Addressable place.1)
    (apart : ∀ place ∈ placed, Apart place.1 other) (own : ownPath current other = some kept)
    : ownPath (withPaths current placed) other = some kept := by
  induction placed generalizing current with
  | nil => exact own
  | cons place rest ih =>
      obtain ⟨here, later⟩ := List.forall_mem_cons.mp addressable
      obtain ⟨apartHere, apartLater⟩ := List.forall_mem_cons.mp apart
      exact ih later apartLater (ownPath_withPath_of_apart here apartHere own)

/-- Every value is read back at its path. -/
theorem getPath_withPaths (some_ : ∀ place ∈ placed, place.1 ≠ [])
    (addressable : ∀ place ∈ placed, Addressable place.1)
    (apart : placed.Pairwise fun first second => Apart first.1 second.1)
    : ∀ place ∈ placed, getPath (withPaths current placed) place.1 = some place.2 := by
  have owned : ∀ place ∈ placed, ownPath (withPaths current placed) place.1 = some place.2 := by
    induction placed generalizing current with
    | nil => exact fun _ member => absurd member List.not_mem_nil
    | cons place rest ih =>
        obtain ⟨here, later⟩ := List.forall_mem_cons.mp addressable
        obtain ⟨someHere, someLater⟩ := List.forall_mem_cons.mp some_
        obtain ⟨apartHere, apartLater⟩ := List.pairwise_cons.mp apart
        intro found member
        rcases List.mem_cons.mp member with same | inside
        · subst same
          change ownPath (withPaths (withPath current found.1 found.2) rest) found.1 = some found.2
          exact ownPath_withPaths_of_apart later (fun other listed => (apartHere other listed).symm)
            (ownPath_withPath someHere here)
        · exact ih someLater later apartLater found inside
  exact fun place member => getPath_of_ownPath (owned place member)

end Writing

-- Reading a target

section Targets

/-- Every array of the tree has a length that an array can have. -/
inductive Storable : Data → Prop where
  | scalar (value : Data) (scalar : StableJson.isScalar value = true) : Storable value
  | array (items : List Data) (length : items.length ≤ 4294967295)
    (each : ∀ item ∈ items, Storable item)
    : Storable (.array items)
  | object (fields : List (JsString × Data)) (each : ∀ field ∈ fields, Storable field.2)
    : Storable (.object fields)

/-- What is reached in a storable tree is storable. -/
def Reached.Storable : Reached → Prop
  | .data value => PatternBindings.Storable value
  | _ => True

theorem Storable.items {items : List Data} (storable : Storable (.array items))
    : items.length ≤ 4294967295 ∧ ∀ item ∈ items, Storable item := by
  cases storable with
  | scalar _ scalar => exact absurd scalar (StableJson.not_isScalar_array items)
  | array _ length each => exact ⟨length, each⟩

theorem Storable.fieldOf {fields : List (JsString × Data)} (storable : Storable (.object fields))
    (key : JsString)
    : Storable (StableJson.fieldOf fields key) := by
  cases storable with
  | scalar _ scalar => exact absurd scalar (StableJson.not_isScalar_object fields)
  | object _ each =>
      by_cases undefined : StableJson.fieldOf fields key = .undefined
      · rw [undefined]
        exact .scalar _ rfl
      · exact each _ (StableJson.mem_of_fieldOf rfl undefined)

theorem storable_inheritedOfObject {name : JsString} {next : Reached}
    (step : inheritedOfObject name = some next)
    : next.Storable := by
  rw [inheritedOfObject] at step
  split at step
  · obtain rfl := Option.some.inj step
    exact trivial
  · split at step
    · obtain rfl := Option.some.inj step
      exact trivial
    · cases step

theorem storable_ownOrInheritedOfArray {length : ℕ} {proto next : Reached} {name : JsString}
    (parent : proto.Storable) (step : ownOrInheritedOfArray length proto name = some next)
    : next.Storable := by
  rw [ownOrInheritedOfArray] at step
  split at step
  · obtain rfl := Option.some.inj step
    exact Storable.scalar _ rfl
  · split at step
    · obtain rfl := Option.some.inj step
      exact parent
    · split at step
      · obtain rfl := Option.some.inj step
        exact trivial
      · cases step

theorem Reached.Storable.step {current next : Reached} {segment : Segment}
    (storable : current.Storable) (step : current.step segment = some next)
    : segment.Addressable ∧ next.Storable := by
  cases current with
  | data value =>
      cases value with
      | array items =>
          obtain ⟨length, each⟩ := PatternBindings.Storable.items storable
          have item {position : ℕ} (found : (items[position]?).map Reached.data = some next)
              : position < 4294967295 ∧ next.Storable := by
            obtain ⟨one, present, rfl⟩ := Option.map_eq_some_iff.mp found
            refine ⟨?_, each one (List.mem_of_getElem? present)⟩
            exact lt_of_lt_of_le (List.getElem?_eq_some_iff.mp present).1 length
          cases segment with
          | index position => exact item step
          | key name =>
              refine ⟨trivial, ?_⟩
              rw [Reached.step] at step
              split at step
              · exact (item step).2
              · exact storable_ownOrInheritedOfArray
                  (show Reached.Storable .arrayPrototype from trivial) step
      | object fields =>
          cases segment with
          | index position => cases step
          | key name =>
              refine ⟨trivial, ?_⟩
              rw [Reached.step] at step
              split at step
              · obtain rfl := Option.some.inj step
                exact PatternBindings.Storable.fieldOf storable name
              · exact storable_inheritedOfObject step
      | _ => cases segment <;> cases step
  | method => cases segment <;> cases step
  | objectPrototype =>
      cases segment with
      | index position => cases step
      | key name =>
          refine ⟨trivial, ?_⟩
          rw [Reached.step] at step
          split at step
          · obtain rfl := Option.some.inj step
            exact PatternBindings.Storable.scalar _ rfl
          · exact storable_inheritedOfObject step
  | arrayPrototype =>
      cases segment with
      | index position => cases step
      | key name =>
          exact ⟨trivial, storable_ownOrInheritedOfArray
            (show Reached.Storable .objectPrototype from trivial) step⟩

/-- Nothing is at a path that no array can address. -/
theorem addressable_of_getPath {value : Data} {path : Path} (storable : Storable value)
    {result : Data} (found : getPath value path = some result)
    : Addressable path := by
  obtain ⟨reached, steps, _⟩ := Option.map_eq_some_iff.mp found
  have general : ∀ (current : Reached), current.Storable →
      path.foldlM Reached.step current = some reached → Addressable path := by
    clear steps found
    induction path with
    | nil => exact fun _ _ _ _ member => absurd member List.not_mem_nil
    | cons segment rest ih =>
        intro current storable steps
        obtain ⟨next, here, later⟩ := Option.bind_eq_some_iff.mp steps
        obtain ⟨addressable, kept⟩ := storable.step here
        exact List.forall_mem_cons.mpr ⟨addressable, ih next kept later⟩
  exact general (.data value) storable steps

end Targets

end SpeculativeAction.PatternBindings
