import Mathlib.Data.List.Basic

/-! Items written over a part of a list. Writes that continue each other are one write, and what
is outside of a write stays.
-/

namespace SpeculativeAction.Library

variable {α : Type*} {items more : List α} {position place : ℕ}

def patch (items more : List α) (position : ℕ) : List α :=
  items.take position ++ more ++ items.drop (position + more.length)

@[simp]
theorem patch_nil (items : List α) (position : ℕ) : patch items [] position = items := by
  rw [patch, List.append_nil, List.length_nil, Nat.add_zero, List.take_append_drop]

theorem length_patch (within : position + more.length ≤ items.length)
    : (patch items more position).length = items.length := by
  rw [patch, List.length_append, List.length_append, List.length_take, List.length_drop]
  omega

theorem take_patch (within : position ≤ items.length)
    : (patch items more position).take (position + more.length) = items.take position ++ more := by
  rw [patch, List.take_left']
  rw [List.length_append, List.length_take, Nat.min_eq_left within]

theorem drop_patch (within : position ≤ items.length) (count : ℕ)
    : (patch items more position).drop (position + more.length + count)
      = items.drop (position + more.length + count) := by
  have length : (items.take position ++ more).length = position + more.length := by
    rw [List.length_append, List.length_take, Nat.min_eq_left within]
  rw [← List.drop_drop, patch, List.drop_left' length, List.drop_drop]

/-- Writes that continue each other are one write. -/
theorem patch_patch (within : position ≤ items.length) (rest : List α)
    : patch (patch items more position) rest (position + more.length)
      = patch items (more ++ rest) position := by
  rw [patch, take_patch within, drop_patch within, patch, List.length_append, Nat.add_assoc,
    List.append_assoc, List.append_assoc, List.append_assoc, List.append_assoc]

/-- What is before a write stays. -/
theorem getElem?_patch_before (within : position ≤ items.length) (before : place < position)
    : (patch items more position)[place]? = items[place]? := by
  have inside : place < (items.take position).length := by
    rw [List.length_take]
    omega
  rw [patch, List.append_assoc, List.getElem?_append_left inside, List.getElem?_take_of_lt before]

/-- What is behind a write stays. -/
theorem getElem?_patch_behind (within : position ≤ items.length)
    (behind : position + more.length ≤ place)
    : (patch items more position)[place]? = items[place]? := by
  obtain ⟨count, rfl⟩ := Nat.exists_eq_add_of_le behind
  have same : (patch items more position).drop _ = _ := drop_patch within count
  rw [← List.head?_drop, same, List.head?_drop]

theorem getElem?_patch_inside (within : position ≤ items.length) (inside : place < more.length)
    : (patch items more position)[position + place]? = more[place]? := by
  have length : (items.take position).length = position := by
    rw [List.length_take, Nat.min_eq_left within]
  rw [patch, List.append_assoc, List.getElem?_append_right (by omega), length,
    Nat.add_sub_cancel_left, List.getElem?_append_left inside]

end SpeculativeAction.Library
