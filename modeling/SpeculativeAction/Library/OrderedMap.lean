import Mathlib.Data.List.Forall2
import Mathlib.Data.List.Nodup
import Mathlib.Data.Option.Defs

/-! Finite maps that iterate in insertion order. Setting a present key keeps its place,
setting a new key appends it, and the stored keys are distinct by construction.
-/

namespace SpeculativeAction.Library

/-- An insertion-ordered map from `K` to `V`. -/
structure OrderedMap (K V : Type*) where
  entries : List (K × V)
  distinct : (entries.map Prod.fst).Nodup

namespace OrderedMap

variable {K V : Type*} {map : OrderedMap K V} {key : K} {value : V} {W : Type*} {other : K}

theorem ext {left right : OrderedMap K V} (same : left.entries = right.entries)
    : left = right := by
  cases left; cases right; congr

instance [DecidableEq K] [DecidableEq V] : DecidableEq (OrderedMap K V) := fun left right =>
  decidable_of_iff (left.entries = right.entries) ⟨ext, congrArg entries⟩

def empty : OrderedMap K V := ⟨[], List.nodup_nil⟩

instance : Inhabited (OrderedMap K V) := ⟨empty⟩

def keys (map : OrderedMap K V) : List K := map.entries.map Prod.fst

def values (map : OrderedMap K V) : List V := map.entries.map Prod.snd

theorem keys_nodup (map : OrderedMap K V) : map.keys.Nodup := map.distinct

@[simp] theorem keys_empty : (empty : OrderedMap K V).keys = [] := rfl

variable [DecidableEq K]

def get? (map : OrderedMap K V) (key : K) : Option V :=
  (map.entries.find? (fun entry => entry.1 = key)).map Prod.snd

def has (map : OrderedMap K V) (key : K) : Bool := decide (key ∈ map.keys)

/-- The entries after setting one key, in place when it is present. -/
def setEntries (key : K) (value : V) : List (K × V) → List (K × V)
  | [] => [(key, value)]
  | entry :: rest =>
      if entry.1 = key then (key, value) :: rest else entry :: setEntries key value rest

theorem mem_keys_setEntries {entries : List (K × V)}
    : other ∈ (setEntries key value entries).map Prod.fst
      ↔ other = key ∨ other ∈ entries.map Prod.fst := by
  induction entries with
  | nil => simp [setEntries]
  | cons entry rest ih =>
      by_cases same : entry.1 = key
      · simp [setEntries, same]
      · simp only [setEntries, same, ite_false, List.map_cons, List.mem_cons, ih]
        grind

theorem nodup_setEntries {entries : List (K × V)} (distinct : (entries.map Prod.fst).Nodup)
    : ((setEntries key value entries).map Prod.fst).Nodup := by
  induction entries with
  | nil => simp [setEntries]
  | cons entry rest ih =>
      obtain ⟨fresh, tail⟩ := List.nodup_cons.mp distinct
      by_cases same : entry.1 = key
      · simp only [setEntries, same, ite_true, List.map_cons, List.nodup_cons]
        exact ⟨same ▸ fresh, tail⟩
      · simp only [setEntries, same, ite_false, List.map_cons, List.nodup_cons]
        refine ⟨fun member => ?_, ih tail⟩
        rcases mem_keys_setEntries.mp member with equal | old
        · exact same equal
        · exact fresh old

def set (map : OrderedMap K V) (key : K) (value : V) : OrderedMap K V :=
  ⟨setEntries key value map.entries, nodup_setEntries map.distinct⟩

def delete (map : OrderedMap K V) (key : K) : OrderedMap K V :=
  ⟨map.entries.filter (fun entry => entry.1 ≠ key),
    map.distinct.sublist (List.filter_sublist.map Prod.fst)⟩

/-- A stored entry is exactly what its key looks up, since keys are distinct. -/
theorem get?_eq_some_iff
    : map.get? key = some value ↔ (key, value) ∈ map.entries := by
  obtain ⟨entries, distinct⟩ := map
  induction entries with
  | nil => simp [get?]
  | cons entry rest ih =>
      obtain ⟨fresh, tail⟩ := List.nodup_cons.mp distinct
      have later := ih tail
      obtain ⟨first, stored⟩ := entry
      by_cases same : first = key
      · subst same
        have absent : (first, value) ∉ rest := fun member =>
          fresh (List.mem_map.mpr ⟨_, member, rfl⟩)
        simp [get?, absent, eq_comm]
      · simpa [get?, List.find?_cons, same, Ne.symm same] using later

theorem get?_eq_none_iff
    : map.get? key = none ↔ key ∉ map.keys := by
  constructor
  · intro missing member
    obtain ⟨⟨other, value⟩, stored, rfl⟩ := List.mem_map.mp member
    simp [get?_eq_some_iff.mpr stored] at missing
  · intro absent
    by_contra present
    obtain ⟨value, found⟩ := Option.ne_none_iff_exists'.mp present
    exact absent (List.mem_map.mpr ⟨_, get?_eq_some_iff.mp found, rfl⟩)

theorem mem_keys_iff
    : key ∈ map.keys ↔ ∃ value, map.get? key = some value := by
  rw [← Option.ne_none_iff_exists', ne_eq, get?_eq_none_iff, not_not]

/-- A map with one value has one key. -/
theorem get?_of_values_eq (alone : map.values = [value])
    : ∃ key, ∀ other, map.get? other = if other = key then some value else none := by
  obtain ⟨entries, distinct⟩ := map
  obtain ⟨entry, single, named⟩ := List.map_eq_singleton_iff.mp alone
  refine ⟨entry.1, fun other => ?_⟩
  simp only at single
  subst single
  by_cases same : other = entry.1
  · simp [get?, same, ← named]
  · simp [get?, same, Ne.symm same]

/-- A map with one key has one value. -/
theorem values_eq_of_get? (stored : map.get? key = some value)
    (alone : ∀ other, other ≠ key → map.get? other = none)
    : map.values = [value] := by
  have keys : map.keys = [key] := by
    refine List.perm_singleton.mp ((List.perm_ext_iff_of_nodup map.keys_nodup
      (List.nodup_singleton key)).mpr fun other => ?_)
    rw [mem_keys_iff, List.mem_singleton]
    constructor
    · intro present
      obtain ⟨found, at_⟩ := present
      by_contra different
      rw [alone other different] at at_
      cases at_
    · exact fun same => ⟨value, same ▸ stored⟩
  obtain ⟨entry, single, -⟩ := List.map_eq_singleton_iff.mp keys
  have member : (key, value) ∈ map.entries := get?_eq_some_iff.mp stored
  rw [single, List.mem_singleton] at member
  rw [values, single, ← member, List.map_singleton]

theorem mem_values_iff
    : value ∈ map.values ↔ ∃ key, map.get? key = some value := by
  simp only [values, List.mem_map, Prod.exists, exists_eq_right, get?_eq_some_iff]

/-- Values stored under one key only are stored once. -/
theorem values_nodup
    (single
      : ∀ left right value,
          map.get? left = some value → map.get? right = some value → left = right)
    : map.values.Nodup := by
  refine (map.distinct.of_map _).map_on fun left leftStored right rightStored same => ?_
  obtain ⟨leftKey, value⟩ := left
  obtain ⟨rightKey, other⟩ := right
  obtain rfl : value = other := same
  rw [single leftKey rightKey value (get?_eq_some_iff.mpr leftStored)
    (get?_eq_some_iff.mpr rightStored)]

@[simp] theorem has_iff
    : map.has key = true ↔ key ∈ map.keys := by simp [has]

@[simp] theorem has_eq_false_iff
    : map.has key = false ↔ key ∉ map.keys := by simp [has]

@[simp] theorem get?_empty (key : K) : (empty : OrderedMap K V).get? key = none := rfl

/-- Reading after a write: the written value at its key, the old value elsewhere. -/
theorem get?_set (map : OrderedMap K V) (key other : K) (value : V)
    : (map.set key value).get? other = if other = key then some value else map.get? other := by
  obtain ⟨entries, distinct⟩ := map
  simp only [get?, set]
  clear distinct
  induction entries with
  | nil => by_cases same : other = key <;> simp [setEntries, same, eq_comm]
  | cons entry rest ih =>
      by_cases here : entry.1 = key
      · by_cases same : other = key
        · subst same; simp [setEntries, here]
        · simp [setEntries, here, Ne.symm same, same]
      · by_cases found : entry.1 = other
        · have different : other ≠ key := fun equal => here (found.trans equal)
          simp [setEntries, found, different]
        · simpa [setEntries, here, List.find?_cons, found] using ih

/-- Writing what is stored changes nothing. -/
theorem set_of_get? (stored : map.get? key = some value)
    : map.set key value = map := by
  obtain ⟨entries, distinct⟩ := map
  apply ext
  simp only [set]
  have member : (key, value) ∈ entries := get?_eq_some_iff.mp stored
  clear stored
  induction entries with
  | nil => cases member
  | cons entry rest ih =>
      rw [List.map_cons, List.nodup_cons] at distinct
      rcases List.mem_cons.mp member with same | later
      · simp [setEntries, ← same]
      · have different : entry.1 ≠ key := by
          intro same
          exact distinct.1 (same ▸ List.mem_map_of_mem later)
        rw [setEntries, if_neg different, ih distinct.2 later]

/-- Replacing a value by one that reads the same leaves what is read of the entries. -/
theorem map_entries_set {β : Type*} {old : V} (stored : map.get? key = some old) (read : K × V → β)
    (same : read (key, value) = read (key, old))
    : (map.set key value).entries.map read = map.entries.map read := by
  obtain ⟨entries, distinct⟩ := map
  have member : (key, old) ∈ entries := get?_eq_some_iff.mp stored
  simp only [set]
  induction entries with
  | nil => cases member
  | cons entry rest ih =>
      rw [List.map_cons, List.nodup_cons] at distinct
      by_cases here : entry.1 = key
      · rcases List.mem_cons.mp member with equal | later
        · rw [setEntries, if_pos here, List.map_cons, List.map_cons, same, equal]
        · exact absurd (here ▸ List.mem_map_of_mem later) distinct.1
      · have later : (key, old) ∈ rest := by
          rcases List.mem_cons.mp member with equal | later
          · exact absurd (congrArg Prod.fst equal).symm here
          · exact later
        rw [setEntries, if_neg here, List.map_cons, List.map_cons,
          ih distinct.2 (get?_eq_some_iff.mpr later) later]

/-- Maps that look up the same hold the same entries. -/
theorem entries_perm_of_get? {left right : OrderedMap K V}
    (same : ∀ key, left.get? key = right.get? key)
    : left.entries.Perm right.entries := by
  refine (List.perm_ext_iff_of_nodup (left.distinct.of_map _) (right.distinct.of_map _)).mpr ?_
  rintro ⟨key, value⟩
  rw [← get?_eq_some_iff, ← get?_eq_some_iff, same]

theorem setEntries_of_fresh {entries : List (K × V)} (absent : key ∉ entries.map Prod.fst)
    (value : V)
    : setEntries key value entries = entries ++ [(key, value)] := by
  induction entries with
  | nil => rfl
  | cons entry rest ih =>
      obtain ⟨different, later⟩ := not_or.mp (List.mem_cons.not.mp absent)
      rw [setEntries, if_neg (Ne.symm different), ih later, List.cons_append]

/-- A new key is appended. -/
theorem values_set_of_fresh (fresh : map.get? key = none) (value : V)
    : (map.set key value).values = map.values ++ [value] := by
  have appended := setEntries_of_fresh (get?_eq_none_iff.mp fresh) value
  have mapped := congrArg (List.map Prod.snd) appended
  rw [List.map_append] at mapped
  exact mapped

theorem mem_keys_set
    : other ∈ (map.set key value).keys ↔ other = key ∨ other ∈ map.keys :=
  mem_keys_setEntries

theorem get?_delete (map : OrderedMap K V) (key other : K)
    : (map.delete key).get? other = if other = key then none else map.get? other := by
  by_cases same : other = key
  · subst same
    rw [if_pos rfl, get?_eq_none_iff]
    simp [keys, delete]
  · rw [if_neg same]
    ext value
    simp [get?_eq_some_iff, delete, same]

/-- What is written under a deleted key is gone with it. -/
theorem delete_set (map : OrderedMap K V) (key : K) (value : V)
    : (map.set key value).delete key = map.delete key := by
  apply ext
  simp only [delete, set]
  induction map.entries with
  | nil => simp [setEntries]
  | cons entry rest ih =>
      by_cases here : entry.1 = key
      · simp [setEntries, here]
      · rw [setEntries, if_neg here, List.filter_cons_of_pos (by simpa using here),
          List.filter_cons_of_pos (by simpa using here), ih]

theorem delete_of_get? (absent : map.get? key = none)
    : map.delete key = map := by
  refine ext (List.filter_eq_self.mpr fun entry member => ?_)
  have other : entry.1 ≠ key := fun same =>
    get?_eq_none_iff.mp absent (same ▸ List.mem_map_of_mem member)
  simpa using other

theorem mem_keys_delete
    : other ∈ (map.delete key).keys ↔ other ≠ key ∧ other ∈ map.keys := by
  simp only [mem_keys_iff, get?_delete]
  by_cases same : other = key <;> simp [same]

theorem mem_keys_deleteAll {keys : List K}
    : other ∈ (keys.foldl delete map).keys ↔ other ∉ keys ∧ other ∈ map.keys := by
  induction keys generalizing map with
  | nil => simp
  | cons key rest ih => rw [List.foldl_cons, ih, mem_keys_delete, List.mem_cons, not_or]; tauto

/-- The map built by setting every pair in order; a later pair overrides an earlier one. -/
def ofList (pairs : List (K × V)) : OrderedMap K V :=
  pairs.foldl (fun map pair => map.set pair.1 pair.2) empty

/-- Every entry of a list updates what is stored under its key. -/
def updateAll {W : Type*} (update : Option V → W → V) (entries : List (K × W))
    (map : OrderedMap K V) : OrderedMap K V :=
  entries.foldl (fun map entry => map.set entry.1 (update (map.get? entry.1) entry.2)) map

section Updates

variable {W : Type*} (update : Option V → W → V) {entries : List (K × W)} {key : K}

theorem get?_updateAll_of_not_mem (absent : key ∉ entries.map Prod.fst) (map : OrderedMap K V)
    : (updateAll update entries map).get? key = map.get? key := by
  induction entries generalizing map with
  | nil => rfl
  | cons first rest ih =>
      obtain ⟨different, later⟩ := not_or.mp (List.mem_cons.not.mp absent)
      exact (ih later _).trans ((get?_set ..).trans (if_neg different))

/-- An entry finds what was stored before, since the keys differ. -/
theorem get?_updateAll_of_mem (distinct : (entries.map Prod.fst).Nodup) {value : W}
    (member : (key, value) ∈ entries) (map : OrderedMap K V)
    : (updateAll update entries map).get? key = some (update (map.get? key) value) := by
  induction entries generalizing map with
  | nil => cases member
  | cons first rest ih =>
      obtain ⟨fresh, later⟩ := List.nodup_cons.mp distinct
      rcases List.mem_cons.mp member with rfl | inside
      · exact (get?_updateAll_of_not_mem update fresh _).trans ((get?_set ..).trans (if_pos rfl))
      · have different : key ≠ first.1 := by
          intro same
          exact fresh (same ▸ List.mem_map_of_mem inside)
        have step := ih later inside (map.set first.1 (update (map.get? first.1) first.2))
        rw [get?_set, if_neg different] at step
        exact step

/-- The order of the entries does not matter to what is looked up. -/
theorem get?_updateAll_perm {other : List (K × W)} (distinct : (entries.map Prod.fst).Nodup)
    (same : entries.Perm other) {left right : OrderedMap K V}
    (alike : ∀ key, left.get? key = right.get? key) (key : K)
    : (updateAll update entries left).get? key = (updateAll update other right).get? key := by
  by_cases present : key ∈ entries.map Prod.fst
  · obtain ⟨⟨named, value⟩, member, rfl⟩ := List.mem_map.mp present
    have distinct' : (other.map Prod.fst).Nodup := (same.map Prod.fst).nodup_iff.mp distinct
    rw [get?_updateAll_of_mem update distinct member,
      get?_updateAll_of_mem update distinct' (same.mem_iff.mp member), alike]
  · rw [get?_updateAll_of_not_mem update present,
      get?_updateAll_of_not_mem update
        (fun inside => present ((same.map Prod.fst).mem_iff.mpr inside)), alike]

/-- Pairs with different keys are looked up as they are listed. -/
theorem get?_ofList {pairs : List (K × V)} (distinct : (pairs.map Prod.fst).Nodup) {value : V}
    : (ofList pairs).get? key = some value ↔ (key, value) ∈ pairs := by
  have built : ofList pairs = updateAll (fun _ value => value) pairs empty := rfl
  rw [built]
  constructor
  · intro found
    by_cases present : key ∈ pairs.map Prod.fst
    · obtain ⟨⟨named, stored⟩, member, rfl⟩ := List.mem_map.mp present
      rw [get?_updateAll_of_mem _ distinct member] at found
      exact Option.some.inj found ▸ member
    · rw [get?_updateAll_of_not_mem _ present, get?_empty] at found
      cases found
  · exact fun member => get?_updateAll_of_mem _ distinct member empty

/-- The last of two writes to a key stays. -/
theorem set_set (map : OrderedMap K V) (key : K) (first second : V)
    : (map.set key first).set key second = map.set key second := by
  obtain ⟨entries, distinct⟩ := map
  apply ext
  simp only [set]
  clear distinct
  induction entries with
  | nil => simp [setEntries]
  | cons entry rest ih =>
      by_cases here : entry.1 = key
      · simp [setEntries, here]
      · simp [setEntries, here, ih]

end Updates

omit [DecidableEq K] in
theorem keys_map (f : V → W) (entries : List (K × V))
    : (entries.map fun entry => (entry.1, f entry.2)).map Prod.fst = entries.map Prod.fst := by
  rw [List.map_map]
  rfl

/-- Every value replaced, in place. -/
def mapValues {W : Type*} (map : OrderedMap K V) (f : V → W) : OrderedMap K W :=
  ⟨map.entries.map fun entry => (entry.1, f entry.2), (keys_map f map.entries).symm ▸ map.distinct⟩

theorem get?_mapValues (map : OrderedMap K V) (f : V → W) (key : K)
    : (map.mapValues f).get? key = (map.get? key).map f := by
  rw [get?, get?, mapValues, List.find?_map, Option.map_map, Option.map_map]
  rfl

omit [DecidableEq K] in
omit [DecidableEq K] in
/-- Two maps with the same keys in the same order and related values. -/
def Related {W : Type*} (related : V → W → Prop) (left : OrderedMap K V) (right : OrderedMap K W)
    : Prop :=
  List.Forall₂ (fun first second => first.1 = second.1 ∧ related first.2 second.2)
    left.entries right.entries

namespace Related

variable {W : Type*} {related : V → W → Prop} {left : OrderedMap K V} {right : OrderedMap K W}

omit [DecidableEq K] in
theorem empty : Related related (OrderedMap.empty : OrderedMap K V) OrderedMap.empty := .nil

omit [DecidableEq K] in
theorem values (both : Related related left right)
    : List.Forall₂ related left.values right.values := by
  rw [OrderedMap.values, OrderedMap.values, List.forall₂_map_left_iff, List.forall₂_map_right_iff]
  exact both.imp fun _ _ same => same.2

/-- Related maps look up related values. -/
theorem get? (both : Related related left right) (key : K)
    : Option.Rel related (left.get? key) (right.get? key) := by
  obtain ⟨leftEntries, leftDistinct⟩ := left
  obtain ⟨rightEntries, rightDistinct⟩ := right
  simp only [Related, OrderedMap.get?] at both ⊢
  clear leftDistinct rightDistinct
  induction both with
  | nil => exact .none
  | cons same _ ih =>
      rw [List.find?_cons, List.find?_cons, ← same.1]
      split
      · exact .some same.2
      · exact ih

theorem set (both : Related related left right) (key : K) {first : V} {second : W}
    (values : related first second)
    : Related related (left.set key first) (right.set key second) := by
  obtain ⟨leftEntries, leftDistinct⟩ := left
  obtain ⟨rightEntries, rightDistinct⟩ := right
  simp only [Related, OrderedMap.set] at both ⊢
  clear leftDistinct rightDistinct
  induction both with
  | nil => exact .cons ⟨rfl, values⟩ .nil
  | cons same more ih =>
      rw [setEntries, setEntries, ← same.1]
      split
      · exact .cons ⟨rfl, values⟩ more
      · exact .cons same ih

end Related

/-- Every stored entry satisfies the predicate. -/
def Forall (holds : K → V → Prop) (map : OrderedMap K V) : Prop :=
  ∀ key value, map.get? key = some value → holds key value

namespace Forall

variable {holds : K → V → Prop} {map : OrderedMap K V}

theorem empty : Forall holds (OrderedMap.empty : OrderedMap K V) := by
  intro key value found
  simp at found

theorem set (all : Forall holds map) {key : K} {value : V} (one : holds key value)
    : Forall holds (map.set key value) := by
  intro other stored found
  rw [get?_set] at found
  split at found
  next same => exact same ▸ Option.some.inj found ▸ one
  next => exact all other stored found

theorem delete (all : Forall holds map) (key : K) : Forall holds (map.delete key) := by
  intro other stored found
  rw [get?_delete] at found
  split at found
  · cases found
  · exact all other stored found

/-- Setting many entries keeps the predicate, by induction over them. -/
theorem setAll {ι : Type*} {key : ι → K} {value : ι → V} (items : List ι) (all : Forall holds map)
    (each : ∀ item ∈ items, holds (key item) (value item))
    : Forall holds (items.foldl (fun map item => map.set (key item) (value item)) map) := by
  induction items generalizing map with
  | nil => exact all
  | cons item rest ih =>
      exact ih (all.set (each item (by simp))) fun other member =>
        each other (List.mem_cons_of_mem _ member)

theorem deleteAll (keys : List K) (all : Forall holds map)
    : Forall holds (keys.foldl OrderedMap.delete map) := by
  induction keys generalizing map with
  | nil => exact all
  | cons key rest ih => exact ih (all.delete key)

end Forall

end OrderedMap

end SpeculativeAction.Library
