import Mathlib.Data.Nat.Notation
import Mathlib.Logic.Function.Basic

/-! A store of mutable objects addressed by reference; references are handed out in order
and never reused.
-/

namespace SpeculativeAction.Library

/-- `size` objects have been allocated; reading beyond them yields the default object. -/
structure Heap (α : Type*) where
  size : ℕ
  cells : ℕ → α

namespace Heap

variable {α : Type*}

def empty [Inhabited α] : Heap α := ⟨0, fun _ => default⟩

def read (heap : Heap α) (ref : ℕ) : α := heap.cells ref

def write (heap : Heap α) (ref : ℕ) (value : α) : Heap α :=
  { heap with cells := Function.update heap.cells ref value }

def modify (heap : Heap α) (ref : ℕ) (change : α → α) : Heap α :=
  heap.write ref (change (heap.read ref))

/-- Allocate a new object; its reference is the old size. -/
def alloc (heap : Heap α) (value : α) : Heap α :=
  ⟨heap.size + 1, Function.update heap.cells heap.size value⟩

@[simp] theorem size_write (heap : Heap α) (ref : ℕ) (value : α)
    : (heap.write ref value).size = heap.size := rfl

@[simp] theorem size_modify (heap : Heap α) (ref : ℕ) (change : α → α)
    : (heap.modify ref change).size = heap.size := rfl

@[simp] theorem size_alloc (heap : Heap α) (value : α) : (heap.alloc value).size = heap.size + 1 := rfl

theorem read_write (heap : Heap α) (ref other : ℕ) (value : α)
    : (heap.write ref value).read other = if other = ref then value else heap.read other := by
  simp [read, write, Function.update_apply]

@[simp] theorem read_write_self (heap : Heap α) (ref : ℕ) (value : α)
    : (heap.write ref value).read ref = value := by
  simp [read_write]

@[simp] theorem read_write_of_ne (heap : Heap α) {ref other : ℕ} (value : α) (different : other ≠ ref)
    : (heap.write ref value).read other = heap.read other := by
  simp [read_write, different]

theorem read_modify (heap : Heap α) (ref other : ℕ) (change : α → α)
    : (heap.modify ref change).read other
      = if other = ref then change (heap.read other) else heap.read other := by
  by_cases same : other = ref <;> simp [modify, same]

theorem read_alloc (heap : Heap α) (value : α) (other : ℕ)
    : (heap.alloc value).read other = if other = heap.size then value else heap.read other := by
  simp [read, alloc, Function.update_apply]

@[simp] theorem read_alloc_self (heap : Heap α) (value : α)
    : (heap.alloc value).read heap.size = value := by
  simp [read_alloc]

@[simp] theorem read_alloc_of_ne (heap : Heap α) (value : α) {other : ℕ} (different : other ≠ heap.size)
    : (heap.alloc value).read other = heap.read other := by
  simp [read_alloc, different]

/-- Changing many objects by an idempotent change changes each listed one once. -/
theorem read_modifyAll {change : α → α} (idempotent : ∀ value, change (change value) = change value)
    (refs : List ℕ) (heap : Heap α) (other : ℕ)
    : (refs.foldl (fun heap ref => heap.modify ref change) heap).read other
      = if other ∈ refs then change (heap.read other) else heap.read other := by
  induction refs generalizing heap with
  | nil => simp
  | cons ref rest ih =>
      rw [List.foldl_cons, ih, read_modify]
      by_cases here : other = ref
      · subst here
        by_cases later : other ∈ rest <;> simp [later, idempotent]
      · by_cases later : other ∈ rest <;> simp [here, later]

theorem size_modifyAll (change : α → α) (refs : List ℕ) (heap : Heap α)
    : (refs.foldl (fun heap ref => heap.modify ref change) heap).size = heap.size := by
  induction refs generalizing heap with
  | nil => rfl
  | cons ref rest ih => rw [List.foldl_cons, ih, size_modify]

end Heap

end SpeculativeAction.Library
