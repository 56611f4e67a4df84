import Mathlib.Data.List.Basic
import Mathlib.Tactic.Ring

/-! A list cut into blocks of one size, of which the last may be shorter. A list that grows at
its end keeps its full blocks; only the rest behind them changes.
-/

namespace SpeculativeAction.Library

variable {α : Type*}

/-- How many blocks a list of some length has. -/
def blockCount (size length : ℕ) : ℕ := (length + size - 1) / size

def block (size : ℕ) (items : List α) (index : ℕ) : List α := (items.drop (index * size)).take size

def blocks (size : ℕ) (items : List α) : List (List α) :=
  (List.range (blockCount size items.length)).map (block size items)

def fullBlocks (size : ℕ) (items : List α) : List (List α) :=
  (List.range (items.length / size)).map (block size items)

/-- What is behind the full blocks. -/
def blockRest (size : ℕ) (items : List α) : List α := items.drop (items.length / size * size)

section Counting

variable {size length index : ℕ} {items : List α}

theorem lt_blockCount_iff (positive : 0 < size)
    : index < blockCount size length ↔ index * size < length := by
  rw [blockCount, Nat.lt_iff_add_one_le, Nat.le_div_iff_mul_le positive, Nat.add_mul, Nat.one_mul]
  omega

theorem blockCount_le (positive : 0 < size) {bound : ℕ} (small : length ≤ bound * size)
    : blockCount size length ≤ bound := by
  by_contra more
  have inside := (lt_blockCount_iff positive).mp (Nat.lt_of_not_le more)
  omega

theorem length_block (size : ℕ) (items : List α) (index : ℕ)
    : (block size items index).length = min size (items.length - index * size) := by
  rw [block, List.length_take, List.length_drop]

theorem length_blockRest (size : ℕ) (items : List α)
    : (blockRest size items).length = items.length % size := by
  rw [blockRest, List.length_drop]
  have split_ := Nat.div_add_mod items.length size
  rw [Nat.mul_comm] at split_
  omega

theorem length_blocks (size : ℕ) (items : List α)
    : (blocks size items).length = blockCount size items.length := by
  rw [blocks, List.length_map, List.length_range]

theorem getElem?_blocks (inside : index < blockCount size items.length)
    : (blocks size items)[index]? = some (block size items index) := by
  rw [blocks, List.getElem?_map, List.getElem?_range inside, Option.map_some]

/-- A position of the list lies in the block at its index. -/
theorem mod_lt_length_block (positive : 0 < size) {position : ℕ} (inside : position < items.length)
    : position % size < (block size items (position / size)).length := by
  have split_ := Nat.div_add_mod position size
  have small := Nat.mod_lt position positive
  rw [Nat.mul_comm] at split_
  rw [length_block]
  omega

/-- A place between the ends of a block is one of the block. -/
theorem sub_lt_length_block {place : ℕ} (from_ : index * size ≤ place)
    (to_ : place < (index + 1) * size) (inside : place < items.length)
    : place - index * size < (block size items index).length := by
  rw [Nat.add_mul, Nat.one_mul] at to_
  rw [length_block]
  omega

theorem add_length_block_le (inside : index * size < items.length)
    : index * size + (block size items index).length ≤ items.length := by
  rw [length_block]
  omega

end Counting

section Growing

variable {size : ℕ} {items more : List α}

/-- A full block is made of items that were there. -/
theorem block_append {index : ℕ} (full : (index + 1) * size ≤ items.length)
    : block size (items ++ more) index = block size items index := by
  rw [Nat.add_mul, Nat.one_mul] at full
  rw [block, block, List.drop_append_of_le_length (by omega), List.take_append_of_le_length]
  rw [List.length_drop]
  omega

/-- The full blocks of a list stay, whatever it grows by. -/
theorem map_block_append (positive : 0 < size)
    : (List.range (items.length / size)).map (block size (items ++ more))
      = fullBlocks size items := by
  refine List.map_congr_left fun index inside => block_append ?_
  have below : index + 1 ≤ items.length / size := List.mem_range.mp inside
  exact (Nat.le_div_iff_mul_le positive).mp below

theorem blockRest_append (grown : (items.length + more.length) / size = items.length / size)
    : blockRest size (items ++ more) = blockRest size items ++ more := by
  rw [blockRest, List.length_append, grown, blockRest,
    List.drop_append_of_le_length (Nat.div_mul_le_self _ _)]

/-- Growth that does not complete the rest. -/
theorem fullBlocks_append_of_lt (short : (blockRest size items).length + more.length < size)
    : fullBlocks size (items ++ more) = fullBlocks size items
      ∧ blockRest size (items ++ more) = blockRest size items ++ more := by
  have positive : 0 < size := Nat.zero_lt_of_lt short
  rw [length_blockRest] at short
  have grown : (items.length + more.length) / size = items.length / size := by
    rw [← Nat.div_add_mod items.length size, Nat.add_assoc, Nat.mul_add_div positive,
      Nat.div_eq_of_lt short, Nat.mul_add_div positive, Nat.div_eq_of_lt (Nat.mod_lt _ positive)]
  refine ⟨?_, blockRest_append grown⟩
  rw [fullBlocks, List.length_append, grown, map_block_append positive]

/-- Growth that completes the rest. -/
theorem fullBlocks_append_of_eq (positive : 0 < size)
    (complete : (blockRest size items).length + more.length = size)
    : fullBlocks size (items ++ more) = fullBlocks size items ++ [blockRest size items ++ more]
      ∧ blockRest size (items ++ more) = [] := by
  rw [length_blockRest] at complete
  have total : items.length + more.length = (items.length / size + 1) * size := by
    have split_ := Nat.div_add_mod items.length size
    rw [Nat.mul_comm] at split_
    rw [Nat.add_mul, Nat.one_mul]
    omega
  have grown : (items.length + more.length) / size = items.length / size + 1 := by
    rw [total, Nat.mul_div_cancel _ positive]
  constructor
  · rw [fullBlocks, List.length_append, grown, List.range_succ, List.map_append,
      map_block_append positive, List.map_singleton, block,
      List.drop_append_of_le_length (Nat.div_mul_le_self _ _), List.take_of_length_le]
    · rfl
    · rw [List.length_append, List.length_drop]
      rw [Nat.add_mul, Nat.one_mul] at total
      omega
  · rw [blockRest, List.length_append, grown, ← total, ← List.length_append, List.drop_length]

/-- The blocks are the full ones and the rest, if there is one. -/
theorem blocks_eq (positive : 0 < size) (items : List α)
    : blocks size items
      = fullBlocks size items
        ++ if blockRest size items = [] then [] else [blockRest size items] := by
  have length := length_blockRest size items
  have split_ := Nat.div_add_mod items.length size
  have small := Nat.mod_lt items.length positive
  by_cases none_ : blockRest size items = []
  · rw [none_, List.length_nil] at length
    have count : blockCount size items.length = items.length / size := by
      rw [blockCount, ← split_, ← length, Nat.add_zero, Nat.add_sub_assoc positive,
        Nat.mul_add_div positive, Nat.mul_div_cancel_left _ positive,
        Nat.div_eq_of_lt (Nat.sub_lt positive Nat.one_pos), Nat.add_zero]
    rw [if_pos none_, List.append_nil, blocks, count, fullBlocks]
  · have some_ : 0 < items.length % size := length ▸ List.length_pos_iff.mpr none_
    have count : blockCount size items.length = items.length / size + 1 := by
      have shifted : items.length + size - 1
          = size * (items.length / size + 1) + (items.length % size - 1) := by
        rw [Nat.mul_add, Nat.mul_one]
        omega
      have fits : items.length % size - 1 < size := by omega
      rw [blockCount, shifted, Nat.mul_add_div positive, Nat.div_eq_of_lt fits, Nat.add_zero]
    rw [if_neg none_, blocks, count, List.range_succ, List.map_append, fullBlocks,
      List.map_singleton, block, List.take_of_length_le]
    · rfl
    · rw [List.length_drop]
      rw [Nat.mul_comm] at split_
      omega

end Growing

end SpeculativeAction.Library
