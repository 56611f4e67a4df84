import Mathlib.Data.Multiset.AddSub
import Mathlib.Data.Multiset.Count
import Mathlib.Data.Int.Cast.Basic

/-! Reference-counted values. The heap stores, with every shared value, the count its users
maintain and how often the value was let go; the multiset of holders is what the count is for.
-/

namespace SpeculativeAction.Library

/-- One shared value, the count of its holders and how often it was released. -/
structure SharedCell (Payload : Type*) where
  payload : Payload
  references : ℤ
  released : ℕ
deriving DecidableEq

namespace SharedHeap

variable {Payload : Type*}

-- Operations

/-- A new value is born with its first holder; it is named by its position. -/
def alloc (heap : List (SharedCell Payload)) (payload : Payload)
    : List (SharedCell Payload) :=
  heap ++ [⟨payload, 1, 0⟩]

def borrowCell (cell : SharedCell Payload) : SharedCell Payload :=
  { cell with references := cell.references + 1 }

/-- One holder leaves; the value is released when the count reaches zero. -/
def dropCell (cell : SharedCell Payload) : SharedCell Payload :=
  {
    cell with
    references := cell.references - 1
    released := if cell.references - 1 = 0 then cell.released + 1 else cell.released
  }

def borrow (heap : List (SharedCell Payload)) (id : ℕ) : List (SharedCell Payload) :=
  heap.modify id borrowCell

def drop (heap : List (SharedCell Payload)) (id : ℕ) : List (SharedCell Payload) :=
  heap.modify id dropCell

/-- An optional reference contributes at most one holder. -/
def holders (reference : Option ℕ) : Multiset ℕ :=
  match reference with
  | some id => {id}
  | none => 0

def borrowAny (heap : List (SharedCell Payload)) (reference : Option ℕ)
    : List (SharedCell Payload) :=
  match reference with
  | some id => borrow heap id
  | none => heap

def dropAny (heap : List (SharedCell Payload)) (reference : Option ℕ)
    : List (SharedCell Payload) :=
  match reference with
  | some id => drop heap id
  | none => heap

@[simp] theorem holders_none : holders none = 0 := rfl

@[simp] theorem holders_some (id : ℕ) : holders (some id) = {id} := rfl

theorem mem_holders {reference : Option ℕ} {id : ℕ}
    : id ∈ holders reference ↔ reference = some id := by
  cases reference <;> simp [eq_comm]

@[simp] theorem length_alloc (heap : List (SharedCell Payload)) (payload : Payload)
    : (alloc heap payload).length = heap.length + 1 := by
  simp [alloc]

@[simp] theorem length_borrow (heap : List (SharedCell Payload)) (id : ℕ)
    : (borrow heap id).length = heap.length := by
  simp [borrow]

@[simp] theorem length_drop (heap : List (SharedCell Payload)) (id : ℕ)
    : (drop heap id).length = heap.length := by
  simp [drop]

-- The count agrees with the holders

/-- Every holder holds a value of the heap, every count is the number of holders, and a
value was released exactly when nobody holds it.
-/
structure Counted (heap : List (SharedCell Payload)) (held : Multiset ℕ) : Prop where
  allocated : ∀ id ∈ held, id < heap.length
  references : ∀ id cell, heap[id]? = some cell → cell.references = (held.count id : ℤ)
  released
    : ∀ id cell, heap[id]? = some cell → cell.released = if held.count id = 0 then 1 else 0

theorem counted_nil : Counted ([] : List (SharedCell Payload)) 0 where
  allocated := by simp
  references := by simp
  released := by simp

namespace Counted

variable {heap : List (SharedCell Payload)} {held : Multiset ℕ} {id : ℕ}

theorem unheld_of_length_le (counted : Counted heap held) (outside : heap.length ≤ id)
    : id ∉ held :=
  fun member => absurd (counted.allocated id member) (by omega)

/-- The creator of a value holds it. -/
theorem alloc (counted : Counted heap held) (payload : Payload)
    : Counted (alloc heap payload) (heap.length ::ₘ held) where
  allocated id member := by
    rw [length_alloc]
    rcases Multiset.mem_cons.mp member with rfl | old
    · omega
    · have := counted.allocated id old
      omega
  references id cell found := by
    rcases lt_trichotomy id heap.length with inside | rfl | outside
    · rw [SharedHeap.alloc, List.getElem?_append_left inside] at found
      rw [Multiset.count_cons_of_ne (by omega), counted.references id cell found]
    · have fresh := Multiset.count_eq_zero.mpr (counted.unheld_of_length_le le_rfl)
      rw [SharedHeap.alloc, List.getElem?_concat_length, Option.some.injEq] at found
      simp [← found, fresh]
    · rw [List.getElem?_eq_none (by simp; omega)] at found
      contradiction
  released id cell found := by
    rcases lt_trichotomy id heap.length with inside | rfl | outside
    · rw [SharedHeap.alloc, List.getElem?_append_left inside] at found
      rw [Multiset.count_cons_of_ne (by omega), counted.released id cell found]
    · rw [SharedHeap.alloc, List.getElem?_concat_length, Option.some.injEq] at found
      simp [← found]
    · rw [List.getElem?_eq_none (by simp; omega)] at found
      contradiction

/-- A value somebody holds may be shared with one more holder. -/
theorem borrow (counted : Counted heap held) (live : id ∈ held)
    : Counted (borrow heap id) (id ::ₘ held) where
  allocated other member := by
    rw [length_borrow]
    rcases Multiset.mem_cons.mp member with rfl | old
    · exact counted.allocated _ live
    · exact counted.allocated _ old
  references other cell found := by
    rw [SharedHeap.borrow, List.getElem?_modify] at found
    obtain ⟨before, present, rfl⟩ := Option.map_eq_some_iff.mp found
    have exact := counted.references other before present
    by_cases same : id = other
    · subst same
      simp [borrowCell, exact]
    · simp [same, Multiset.count_cons_of_ne (Ne.symm same), exact]
  released other cell found := by
    rw [SharedHeap.borrow, List.getElem?_modify] at found
    obtain ⟨before, present, rfl⟩ := Option.map_eq_some_iff.mp found
    have exact := counted.released other before present
    by_cases same : id = other
    · subst same
      have positive : held.count id ≠ 0 := (Multiset.count_pos.mpr live).ne'
      simp [borrowCell, exact, positive]
    · simp [same, Multiset.count_cons_of_ne (Ne.symm same), exact]

/-- A holder may leave once; the last one releases the value. -/
theorem drop (counted : Counted heap (id ::ₘ held)) : Counted (drop heap id) held where
  allocated other member := by
    rw [length_drop]
    exact counted.allocated other (Multiset.mem_cons_of_mem member)
  references other cell found := by
    rw [SharedHeap.drop, List.getElem?_modify] at found
    obtain ⟨before, present, rfl⟩ := Option.map_eq_some_iff.mp found
    have exact := counted.references other before present
    by_cases same : id = other
    · subst same
      simp [dropCell, exact]
    · simpa [same, Multiset.count_cons_of_ne (Ne.symm same)] using exact
  released other cell found := by
    rw [SharedHeap.drop, List.getElem?_modify] at found
    obtain ⟨before, present, rfl⟩ := Option.map_eq_some_iff.mp found
    have counts := counted.references other before present
    have exact := counted.released other before present
    by_cases same : id = other
    · subst same
      simp only [Multiset.count_cons_self] at counts exact
      have last : before.references - 1 = 0 ↔ held.count id = 0 := by omega
      simp [dropCell, exact, last]
    · simpa [same, Multiset.count_cons_of_ne (Ne.symm same)] using exact

/-- Sharing an optional reference adds its holder. -/
theorem borrowAny (counted : Counted heap held) (reference : Option ℕ)
    (live : ∀ id, reference = some id → id ∈ held)
    : Counted (borrowAny heap reference) (held + holders reference) := by
  cases reference with
  | none => simpa [SharedHeap.borrowAny] using counted
  | some id =>
      rw [holders_some, Multiset.add_comm, Multiset.singleton_add]
      exact counted.borrow (live id rfl)

/-- Giving up an optional reference removes its holder. -/
theorem dropAny (reference : Option ℕ) (counted : Counted heap (held + holders reference))
    : Counted (dropAny heap reference) held := by
  cases reference with
  | none => simpa [SharedHeap.dropAny] using counted
  | some id =>
      rw [holders_some, Multiset.add_comm, Multiset.singleton_add] at counted
      exact counted.drop

/-- Giving up many references at once. -/
theorem dropAll (ids : List ℕ) (counted : Counted heap (held + (ids : Multiset ℕ)))
    : Counted (ids.foldl SharedHeap.drop heap) held := by
  induction ids generalizing heap with
  | nil => simpa using counted
  | cons id rest ih =>
      refine ih ?_
      rw [← Multiset.cons_coe, Multiset.add_cons] at counted
      exact counted.drop

end Counted

-- Payloads

/-- Sharing changes no payload. -/
theorem payload_borrow (heap : List (SharedCell Payload)) (id other : ℕ)
    : ((borrow heap id)[other]?).map SharedCell.payload
      = (heap[other]?).map SharedCell.payload := by
  rw [borrow, List.getElem?_modify]
  cases heap[other]? with
  | none => rfl
  | some cell => by_cases same : id = other <;> simp [same, borrowCell]

theorem payload_drop (heap : List (SharedCell Payload)) (id other : ℕ)
    : ((drop heap id)[other]?).map SharedCell.payload
      = (heap[other]?).map SharedCell.payload := by
  rw [drop, List.getElem?_modify]
  cases heap[other]? with
  | none => rfl
  | some cell => by_cases same : id = other <;> simp [same, dropCell]

theorem payload_dropAll (heap : List (SharedCell Payload)) (ids : List ℕ) (other : ℕ)
    : ((ids.foldl drop heap)[other]?).map SharedCell.payload
      = (heap[other]?).map SharedCell.payload := by
  induction ids generalizing heap with
  | nil => rfl
  | cons id rest ih => rw [List.foldl_cons, ih, payload_drop]

/-- A new value keeps the payloads of the old ones. -/
theorem payload_alloc (heap : List (SharedCell Payload)) (payload : Payload) {other : ℕ}
    (old : other < heap.length)
    : ((alloc heap payload)[other]?).map SharedCell.payload
      = (heap[other]?).map SharedCell.payload := by
  rw [alloc, List.getElem?_append_left old]

end SharedHeap

end SpeculativeAction.Library
