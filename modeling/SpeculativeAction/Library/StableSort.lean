import Mathlib.Data.List.Sort
import Mathlib.Data.List.Perm.Basic

/-! Stable sorting: merge sort places one element as insertion does, and what a sort tells apart it
puts in one order only.
-/

namespace SpeculativeAction.Library

variable {α : Type*}

section Relation

variable {r : α → α → Prop} [DecidableRel r]

/-- An element goes behind what it must not precede and ahead of the rest. -/
theorem orderedInsert_append {element : α} {front back : List α}
    (behind : ∀ other ∈ front, ¬ r element other) (ahead : ∀ other ∈ back, r element other)
    : (front ++ back).orderedInsert r element = front ++ element :: back := by
  induction front with
  | nil =>
      cases back with
      | nil => rfl
      | cons first rest => exact List.orderedInsert_cons_of_le r rest (ahead first List.mem_cons_self)
  | cons first rest ih =>
      obtain ⟨here, later⟩ := List.forall_mem_cons.mp behind
      rw [List.cons_append, List.orderedInsert_of_not_le r _ here, ih later]
      rfl

end Relation

section Sorting

variable {le : α → α → Bool}

/-- Merge sort is insertion sort, since both are stable. -/
theorem mergeSort_eq_insertionSort (trans : ∀ a b c, le a b → le b c → le a c)
    (total : ∀ a b, (le a b || le b a) = true) (list : List α)
    : list.mergeSort le = list.insertionSort (fun a b => le a b = true) := by
  induction list with
  | nil => rw [List.mergeSort_nil, List.insertionSort_nil]
  | cons element rest ih =>
      obtain ⟨front, back, whole, sorted, before⟩ := List.mergeSort_cons trans total element rest
      have ordered : (front ++ element :: back).Pairwise fun a b => le a b = true :=
        whole ▸ List.pairwise_mergeSort trans total (element :: rest)
      have ahead : ∀ other ∈ back, le element other = true :=
        (List.pairwise_cons.mp (List.pairwise_append.mp ordered).2.1).1
      rw [whole, List.insertionSort_cons, ← ih, sorted, orderedInsert_append _ ahead]
      exact fun other inside => by simpa using before other inside

/-- What a sort tells apart it puts in one order, however it came. -/
theorem mergeSort_eq_of_perm (trans : ∀ a b c, le a b → le b c → le a c)
    (total : ∀ a b, (le a b || le b a) = true) {left right : List α} (same : left.Perm right)
    (apart : ∀ a ∈ left, ∀ b ∈ left, le a b = true → le b a = true → a = b)
    : left.mergeSort le = right.mergeSort le := by
  refine List.Perm.eq_of_pairwise (fun a b inLeft inRight => ?_)
    (List.pairwise_mergeSort trans total left) (List.pairwise_mergeSort trans total right)
    (((List.mergeSort_perm left le).trans same).trans (List.mergeSort_perm right le).symm)
  exact apart a ((List.mergeSort_perm left le).mem_iff.mp inLeft) b
    (same.mem_iff.mpr ((List.mergeSort_perm right le).mem_iff.mp inRight))

end Sorting

section Merging

variable {le : α → α → Bool}

/-- An element inserted into the left of a merge is inserted into what is merged: it goes ahead of
its equals on both sides.
-/
theorem merge_orderedInsert (trans : ∀ a b c, le a b → le b c → le a c)
    (total : ∀ a b, (le a b || le b a) = true) (element : α) (left right : List α)
    : (left.orderedInsert (fun a b => le a b = true) element).merge right le
      = (left.merge right le).orderedInsert (fun a b => le a b = true) element := by
  induction left generalizing right with
  | nil =>
      induction right with
      | nil => rw [List.merge_right, List.merge_right]
      | cons first rest ih =>
          rw [List.nil_merge, List.orderedInsert_nil, List.cons_merge_cons, List.orderedInsert_cons]
          rw [List.orderedInsert_nil, List.nil_merge] at ih
          split
          · rw [List.nil_merge]
          · rw [ih]
  | cons head tail ih =>
      induction right with
      | nil => rw [List.merge_right, List.merge_right]
      | cons first rest ihRight =>
          by_cases ahead : le element head = true
          · rw [List.orderedInsert_cons, if_pos ahead] at ihRight ⊢
            by_cases order : le head first = true
            · rw [List.cons_merge_cons_pos le _ _ (trans _ _ _ ahead order),
                List.cons_merge_cons_pos le _ _ order, List.orderedInsert_cons, if_pos ahead]
            · rw [List.cons_merge_cons_neg le _ _ order, List.orderedInsert_cons]
              by_cases before : le element first = true
              · rw [List.cons_merge_cons_pos le _ _ before, if_pos before,
                  List.cons_merge_cons_neg le _ _ order]
              · rw [List.cons_merge_cons_neg le _ _ before, if_neg before, ihRight]
          · rw [List.orderedInsert_cons, if_neg ahead] at ihRight ⊢
            by_cases order : le head first = true
            · rw [List.cons_merge_cons_pos le _ _ order, List.cons_merge_cons_pos le _ _ order,
                List.orderedInsert_cons, if_neg ahead, ih]
            · have behind : ¬ le element first = true := by
                intro before
                have other : le first head = true := by
                  simpa [order] using total head first
                exact ahead (trans _ _ _ before other)
              rw [List.cons_merge_cons_neg le _ _ order, List.cons_merge_cons_neg le _ _ order,
                List.orderedInsert_cons, if_neg behind, ihRight]

/-- A sorted whole is the merge of its sorted parts. -/
theorem mergeSort_append (trans : ∀ a b c, le a b → le b c → le a c)
    (total : ∀ a b, (le a b || le b a) = true) (left right : List α)
    : (left ++ right).mergeSort le = (left.mergeSort le).merge (right.mergeSort le) le := by
  induction left with
  | nil => rw [List.nil_append, List.mergeSort_nil, List.nil_merge]
  | cons element rest ih =>
      have insert_ : ∀ list : List α, (element :: list).mergeSort le
          = (list.mergeSort le).orderedInsert (fun a b => le a b = true) element := by
        intro list
        rw [mergeSort_eq_insertionSort trans total, mergeSort_eq_insertionSort trans total,
          List.insertionSort_cons]
      rw [List.cons_append, insert_, insert_, merge_orderedInsert trans total, ih]

theorem take_merge_left (count : ℕ) (left right : List α)
    : ((left.take count).merge right le).take count = (left.merge right le).take count := by
  induction count generalizing left right with
  | zero => rw [List.take_zero, List.take_zero]
  | succ count ih =>
      induction left with
      | nil => rw [List.take_nil]
      | cons head tail _ =>
          cases right with
          | nil => rw [List.merge_right, List.merge_right, List.take_take, min_self]
          | cons first rest =>
              rw [List.take_succ_cons, List.cons_merge_cons, List.cons_merge_cons]
              split
              · rw [List.take_succ_cons, List.take_succ_cons, ih]
              · rw [List.take_succ_cons, List.take_succ_cons, ← ih (head :: tail.take count),
                  ← ih (head :: tail)]
                congr 3
                rw [← List.take_succ_cons, List.take_take, min_eq_left (Nat.le_succ count)]

theorem take_merge_right (count : ℕ) (left right : List α)
    : (left.merge (right.take count) le).take count = (left.merge right le).take count := by
  induction count generalizing left right with
  | zero => rw [List.take_zero, List.take_zero]
  | succ count ih =>
      cases left with
      | nil => rw [List.nil_merge, List.nil_merge, List.take_take, min_self]
      | cons head tail =>
          cases right with
          | nil => rw [List.take_nil]
          | cons first rest =>
              rw [List.take_succ_cons, List.cons_merge_cons, List.cons_merge_cons]
              split
              · rw [List.take_succ_cons, List.take_succ_cons, ← ih tail (first :: rest.take count),
                  ← ih tail (first :: rest)]
                congr 3
                rw [← List.take_succ_cons, List.take_take, min_eq_left (Nat.le_succ count)]
              · rw [List.take_succ_cons, List.take_succ_cons, ih]

end Merging

section Bounded

variable {le : α → α → Bool}

/-- The first elements, up to a bound. -/
def takeUpTo (bound : Option ℕ) (list : List α) : List α :=
  match bound with
  | some count => list.take count
  | none => list

theorem takeUpTo_sublist (bound : Option ℕ) (list : List α) : (takeUpTo bound list).Sublist list := by
  cases bound with
  | none => exact .refl _
  | some count => exact List.take_sublist _ _

theorem takeUpTo_map {β : Type*} (bound : Option ℕ) (f : α → β) (list : List α)
    : takeUpTo bound (list.map f) = (takeUpTo bound list).map f := by
  cases bound with
  | none => rfl
  | some count => exact List.map_take.symm

theorem takeUpTo_idem (bound : Option ℕ) (list : List α)
    : takeUpTo bound (takeUpTo bound list) = takeUpTo bound list := by
  cases bound with
  | none => rfl
  | some count => exact (List.take_take ..).trans (congrArg (list.take ·) (min_self count))

theorem takeUpTo_merge (bound : Option ℕ) (left right : List α)
    : takeUpTo bound ((takeUpTo bound left).merge (takeUpTo bound right) le)
      = takeUpTo bound (left.merge right le) := by
  cases bound with
  | none => rfl
  | some count => exact (take_merge_left ..).trans (take_merge_right ..)

/-- The first elements of a sorted list, up to a bound. -/
def firstSorted (bound : Option ℕ) (le : α → α → Bool) (list : List α) : List α :=
  takeUpTo bound (list.mergeSort le)

variable {bound : Option ℕ}

/-- What is cut off beforehand would be cut off afterwards. -/
theorem firstSorted_idem (trans : ∀ a b c, le a b → le b c → le a c)
    (total : ∀ a b, (le a b || le b a) = true) (list : List α)
    : firstSorted bound le (firstSorted bound le list) = firstSorted bound le list := by
  have sorted : (firstSorted bound le list).Pairwise fun a b => le a b = true :=
    (List.pairwise_mergeSort trans total list).sublist (takeUpTo_sublist bound _)
  unfold firstSorted at sorted ⊢
  rw [List.mergeSort_of_pairwise sorted, takeUpTo_idem]

/-- A sorted list is cut off as it is. -/
theorem firstSorted_of_pairwise {list : List α} (sorted : list.Pairwise fun a b => le a b = true)
    : firstSorted bound le list = takeUpTo bound list := by
  rw [firstSorted, List.mergeSort_of_pairwise sorted]

theorem firstSorted_append (trans : ∀ a b c, le a b → le b c → le a c)
    (total : ∀ a b, (le a b || le b a) = true) (left right : List α)
    : firstSorted bound le (left ++ right)
      = takeUpTo bound
        ((firstSorted bound le left).merge (firstSorted bound le right) le) := by
  unfold firstSorted
  rw [mergeSort_append trans total, takeUpTo_merge]

/-- Lists that have the same first elements may stand for each other in a concatenation. -/
theorem firstSorted_flatMap {ι : Type*} (trans : ∀ a b c, le a b → le b c → le a c)
    (total : ∀ a b, (le a b || le b a) = true) {first second : ι → List α} {items : List ι}
    (same
      : ∀ item ∈ items,
        firstSorted bound le (first item) = firstSorted bound le (second item))
    : firstSorted bound le (items.flatMap first) = firstSorted bound le (items.flatMap second) := by
  induction items with
  | nil => rfl
  | cons item rest ih =>
      obtain ⟨here, later⟩ := List.forall_mem_cons.mp same
      rw [List.flatMap_cons, List.flatMap_cons, firstSorted_append trans total,
        firstSorted_append trans total, here, ih later]

end Bounded

section Comparison

variable {comparison : α → α → Ordering} [Std.TransCmp comparison]

theorem isLE_trans (a b c : α) (first : (comparison a b).isLE = true)
    (second : (comparison b c).isLE = true)
    : (comparison a c).isLE = true :=
  Std.TransCmp.isLE_trans first second

theorem isLE_total (a b : α) : ((comparison a b).isLE || (comparison b a).isLE) = true := by
  have swapped : comparison b a = (comparison a b).swap := Std.OrientedCmp.eq_swap
  rw [swapped]
  cases comparison a b <;> rfl

/-- Each of two that come no later than the other is as the other. -/
theorem eq_of_isLE_of_isLE {a b : α} (first : (comparison a b).isLE = true)
    (second : (comparison b a).isLE = true)
    : comparison a b = .eq := by
  have swapped : comparison b a = (comparison a b).swap := Std.OrientedCmp.eq_swap
  rw [swapped] at second
  cases found : comparison a b with
  | lt =>
      rw [found] at second
      cases second
  | eq => rfl
  | gt =>
      rw [found] at first
      cases first

end Comparison

end SpeculativeAction.Library
