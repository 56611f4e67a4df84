import Mathlib.Algebra.BigOperators.Group.List.Basic
import SpeculativeAction.Library.OrderedMap

/-! Sums over a table of which one entry changes. The sum after the change and the weight
of the entry before it balance the sum before the change and the weight of the new entry.
-/

namespace SpeculativeAction.Library

variable {K V M : Type*} [AddCommMonoid M]

/-- The other elements of a list weigh the same whatever stands at one place. -/
theorem sum_map_split (weigh : V → M) {list : List V} {index : ℕ} {old : V}
    (found : list[index]? = some old)
    : ∃ rest,
        (list.map weigh).sum = rest + weigh old
        ∧ ∀ new, ((list.set index new).map weigh).sum = rest + weigh new := by
  induction list generalizing index with
  | nil => simp at found
  | cons head tail ih =>
      cases index with
      | zero =>
          obtain rfl : head = old := by simpa using found
          exact ⟨(tail.map weigh).sum, by simp [add_comm], by simp [add_comm]⟩
      | succ index =>
          obtain ⟨rest, before, after⟩ := ih (by simpa using found)
          refine ⟨weigh head + rest, ?_, fun new => ?_⟩
          · rw [List.map_cons, List.sum_cons, before, add_assoc]
          · rw [List.set_cons_succ, List.map_cons, List.sum_cons, after, add_assoc]

/-- Replacing one element of a list. -/
theorem sum_map_set (weigh : V → M) {list : List V} {index : ℕ} {old : V} (new : V)
    (found : list[index]? = some old)
    : ((list.set index new).map weigh).sum + weigh old = (list.map weigh).sum + weigh new := by
  obtain ⟨rest, before, after⟩ := sum_map_split weigh found
  rw [before, after, add_right_comm]

namespace OrderedMap

variable [DecidableEq K]

theorem sum_setEntries (weigh : V → M) (key : K) (value : V) (entries : List (K × V))
    : ((setEntries key value entries).map fun entry => weigh entry.2).sum
        + (((entries.find? (fun entry => entry.1 = key)).map Prod.snd).map weigh).getD 0
      = (entries.map fun entry => weigh entry.2).sum + weigh value := by
  induction entries with
  | nil => simp [setEntries]
  | cons entry rest ih =>
      by_cases same : entry.1 = key
      · simp [setEntries, same, add_comm, add_left_comm]
      · simp only [setEntries, same, if_false, List.map_cons, List.sum_cons,
          List.find?_cons, decide_false, add_assoc]
        rw [ih]

/-- Setting one key of a map. -/
theorem sum_set (weigh : V → M) (map : OrderedMap K V) (key : K) (value : V)
    : ((map.set key value).values.map weigh).sum + ((map.get? key).map weigh).getD 0
      = (map.values.map weigh).sum + weigh value := by
  have balance := sum_setEntries weigh key value map.entries
  simpa only [OrderedMap.set, values, get?, List.map_map, Function.comp_def] using balance

/-- Deleting one key of a map. -/
theorem sum_delete (weigh : V → M) (map : OrderedMap K V) (key : K)
    : ((map.delete key).values.map weigh).sum + ((map.get? key).map weigh).getD 0
      = (map.values.map weigh).sum := by
  obtain ⟨entries, distinct⟩ := map
  simp only [OrderedMap.delete, values, get?, List.map_map, Function.comp_def]
  induction entries with
  | nil => simp
  | cons entry rest ih =>
      obtain ⟨fresh, tail⟩ := List.nodup_cons.mp distinct
      by_cases same : entry.1 = key
      · have others : rest.filter (fun other => decide (other.1 ≠ key)) = rest := by
          refine List.filter_eq_self.mpr fun other member => ?_
          have : other.1 ≠ entry.1 := fun equal =>
            fresh (List.mem_map.mpr ⟨other, member, equal⟩)
          simpa [same] using this
        rw [List.filter_cons_of_neg (by simpa using same), others]
        simp [same, add_comm]
      · rw [List.filter_cons_of_pos (by simpa using same)]
        simp only [same, decide_false, List.find?_cons, List.map_cons, List.sum_cons, add_assoc,
          ih tail]

end OrderedMap

end SpeculativeAction.Library
