import Mathlib.Algebra.BigOperators.Group.Finset.Basic
import Mathlib.Algebra.Order.BigOperators.Group.Finset
import SpeculativeAction.Library.OrderedMap

/-! Collecting the items of entries under the entries' labels, and sums over the groups that
arise: they depend on which entries share a label and not on the labels or on any order.
-/

namespace SpeculativeAction.Library

section Collect

variable {E K V : Type*} [DecidableEq K] {label : E → K} {items : E → List V} {entries : List E}

/-- Append to the list under a key. -/
def pushAll (map : OrderedMap K (List V)) (key : K) (values : List V) : OrderedMap K (List V) :=
  map.set key ((map.get? key).getD [] ++ values)

/-- Collect the items of every entry under its label. -/
def collect (label : E → K) (items : E → List V) (entries : List E) : OrderedMap K (List V) :=
  entries.foldl (fun map entry => pushAll map (label entry) (items entry)) .empty

/-- The items of the entries with one label, in their order. -/
def labelled (label : E → K) (items : E → List V) (entries : List E) (key : K) : List V :=
  (entries.filter fun entry => decide (label entry = key)).flatMap items

theorem mem_labelled {key : K} {value : V}
    : value ∈ labelled label items entries key
      ↔ ∃ entry ∈ entries, label entry = key ∧ value ∈ items entry := by
  simp [labelled, and_assoc]

/-- Collecting one entry after another, by induction over the entries. -/
theorem get?_collect_from (label : E → K) (items : E → List V) (entries : List E)
    (map : OrderedMap K (List V)) (key : K)
    : (entries.foldl (fun map entry => pushAll map (label entry) (items entry)) map).get? key
      = if key ∈ entries.map label then
          some ((map.get? key).getD [] ++ labelled label items entries key)
        else map.get? key := by
  induction entries generalizing map with
  | nil => simp
  | cons entry rest ih =>
      rw [List.foldl_cons, ih, pushAll, OrderedMap.get?_set]
      by_cases here : key = label entry
      · subst here
        by_cases later : label entry ∈ rest.map label
        · simp [later, labelled, List.append_assoc]
        · have gone : rest.filter (fun other => decide (label other = label entry)) = [] := by
            rw [List.filter_eq_nil_iff]
            intro other member same
            exact later (List.mem_map.mpr ⟨other, member, of_decide_eq_true same⟩)
          simp [later, labelled, gone]
      · have skips
            : labelled label items (entry :: rest) key = labelled label items rest key := by
          simp [labelled, Ne.symm here]
        simp only [here, if_false, skips, List.map_cons, List.mem_cons, false_or]

theorem get?_collect (label : E → K) (items : E → List V) (entries : List E) (key : K)
    : (collect label items entries).get? key
      = if key ∈ entries.map label then some (labelled label items entries key) else none := by
  rw [collect, get?_collect_from]
  simp

/-- The keys are the labels that occur. -/
theorem mem_keys_collect {key : K}
    : key ∈ (collect label items entries).keys ↔ key ∈ entries.map label := by
  rw [OrderedMap.mem_keys_iff, get?_collect]
  by_cases occurs : key ∈ entries.map label <;> simp [occurs]

/-- Every stored list is what its key was given. -/
theorem values_collect (label : E → K) (items : E → List V) (entries : List E)
    : (collect label items entries).values
      = (collect label items entries).keys.map (labelled label items entries) := by
  rw [OrderedMap.values, OrderedMap.keys, List.map_map]
  refine List.map_congr_left fun entry member => ?_
  have stored : (collect label items entries).get? entry.1 = some entry.2 :=
    OrderedMap.get?_eq_some_iff.mpr member
  rw [get?_collect] at stored
  split at stored
  · exact (Option.some.inj stored).symm
  · cases stored

theorem mem_values_collect {values : List V}
    (member : values ∈ (collect label items entries).values)
    : ∃ key, values = labelled label items entries key := by
  rw [values_collect] at member
  obtain ⟨key, -, same⟩ := List.mem_map.mp member
  exact ⟨key, same.symm⟩

end Collect

section Sums

variable {E K V A : Type*} [DecidableEq K] [AddCommMonoid A]

/-- A sum over the groups is a sum over the labels that occur. -/
theorem sum_values_collect (label : E → K) (items : E → List V) (entries : List E)
    (total : List V → A)
    : ((collect label items entries).values.map total).sum
      = ∑ key ∈ (entries.map label).toFinset, total (labelled label items entries key) := by
  have same
      : (collect label items entries).keys.toFinset = (entries.map label).toFinset := by
    ext key
    rw [List.mem_toFinset, List.mem_toFinset, mem_keys_collect]
  rw [values_collect, List.map_map, ← same,
    List.sum_toFinset _ (collect label items entries).keys_nodup]
  rfl

/-- Fewer entries have fewer groups, and each group counts for no more. -/
theorem sum_values_collect_le {W : Type*} [PartialOrder A] [IsOrderedAddMonoid A] {label : E → K}
    {items : E → List V} {others : E → List W} {entries fewer : List E} {small : List V → A}
    {large : List W → A} (within : ∀ entry ∈ fewer, entry ∈ entries)
    (bounded
      : ∀ key, small (labelled label items fewer key) ≤ large (labelled label others entries key))
    (nonneg : ∀ values, 0 ≤ large values)
    : ((collect label items fewer).values.map small).sum
      ≤ ((collect label others entries).values.map large).sum := by
  rw [sum_values_collect, sum_values_collect]
  refine (Finset.sum_le_sum fun key _ => bounded key).trans ?_
  refine Finset.sum_le_sum_of_subset_of_nonneg ?_ fun key _ _ => nonneg _
  intro key occurs
  rw [List.mem_toFinset] at occurs ⊢
  obtain ⟨entry, member, same⟩ := List.mem_map.mp occurs
  exact List.mem_map.mpr ⟨entry, within entry member, same⟩

open Classical in
/-- The classes of a labelling stand for the labels that occur. -/
theorem sum_labels_eq_sum_classes (label : E → K) (entries : List E) (total : Finset E → A)
    : ∑ key ∈ (entries.map label).toFinset,
        total (entries.toFinset.filter fun entry => label entry = key)
      = ∑ entriesOf ∈ entries.toFinset.image fun entry =>
            entries.toFinset.filter fun other => label other = label entry,
          total entriesOf := by
  have labels : (entries.map label).toFinset = entries.toFinset.image label := by
    ext key
    simp
  have classes
      : (entries.toFinset.image fun entry =>
          entries.toFinset.filter fun other => label other = label entry)
        = (entries.toFinset.image label).image fun key =>
            entries.toFinset.filter fun entry => label entry = key := by
    rw [Finset.image_image]
    rfl
  rw [labels, classes]
  refine (Finset.sum_image ?_).symm
  -- a label that occurs is the label of a member of its class
  intro left occurs right _ same
  obtain ⟨entry, member, rfl⟩ := Finset.mem_image.mp occurs
  have inClass : entry ∈ entries.toFinset.filter fun other => label other = label entry :=
    Finset.mem_filter.mpr ⟨member, rfl⟩
  have alsoIn : entry ∈ entries.toFinset.filter fun other => label other = right := by
    dsimp only at same
    exact same ▸ inClass
  exact (Finset.mem_filter.mp alsoIn).2

/-- Sums over groups agree when the same entries share labels, whatever the labels are and in
whatever order the entries come, as long as a group counts by its members.
-/
theorem sum_values_collect_congr {label other : E → K} {items : E → List V}
    {entries permuted : List E} {total : List V → A}
    (members
      : ∀ first second : List V, (∀ value, value ∈ first ↔ value ∈ second)
        → total first = total second)
    (same : ∀ entry, entry ∈ entries ↔ entry ∈ permuted)
    (kernel
      : ∀ left ∈ entries, ∀ right ∈ entries, label left = label right ↔ other left = other right)
    : ((collect label items entries).values.map total).sum
      = ((collect other items permuted).values.map total).sum := by
  classical
  have counts (label : E → K) (entries : List E) (key : K)
      : total (labelled label items entries key)
        = total ((entries.toFinset.filter fun entry => label entry = key).toList.flatMap
            items) := by
    refine members _ _ fun value => ?_
    simp [labelled]
  have sets : entries.toFinset = permuted.toFinset := by
    ext entry
    rw [List.mem_toFinset, List.mem_toFinset, same]
  rw [sum_values_collect, sum_values_collect,
    Finset.sum_congr rfl fun key _ => counts label entries key,
    Finset.sum_congr rfl fun key _ => counts other permuted key,
    sum_labels_eq_sum_classes label entries fun entriesOf => total (entriesOf.toList.flatMap items),
    sum_labels_eq_sum_classes other permuted fun entriesOf => total (entriesOf.toList.flatMap items),
    ← sets]
  refine Finset.sum_congr (Finset.image_congr fun entry member => ?_) fun _ _ => rfl
  refine Finset.filter_congr fun another listed => ?_
  exact kernel another (List.mem_toFinset.mp listed) entry (List.mem_toFinset.mp member)

/-- Adding to the value of a key adds to the sum of the values. -/
theorem sum_values_add (map : OrderedMap K A) (key : K) (gain : A)
    : (map.set key ((map.get? key).getD 0 + gain)).values.sum = map.values.sum + gain := by
  obtain ⟨entries, distinct⟩ := map
  simp only [OrderedMap.values, OrderedMap.set, OrderedMap.get?]
  clear distinct
  induction entries with
  | nil => simp [OrderedMap.setEntries]
  | cons entry rest ih =>
      by_cases here : entry.1 = key
      · simp [OrderedMap.setEntries, here, add_right_comm]
      · simp [OrderedMap.setEntries, here, add_assoc, ← ih]

end Sums

end SpeculativeAction.Library
