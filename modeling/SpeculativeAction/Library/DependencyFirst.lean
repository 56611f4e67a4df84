import Mathlib.Data.List.Induction
import Mathlib.Data.List.Nodup
import Mathlib.Logic.Relation

/-! Orders that list every vertex after the vertices it depends on. -/

namespace SpeculativeAction.Library

variable {α : Type*}

/-- `parent v p` reads "`v` depends on `p`": each listed vertex has all its parents
among the vertices listed before it.
-/
def DependencyFirst (parent : α → α → Prop) (order : List α) : Prop :=
  ∀ before vertex after,
    order = before ++ vertex :: after → ∀ ancestor, parent vertex ancestor → ancestor ∈ before

/-- No vertex reaches itself through one or more parent links. -/
def Acyclic (parent : α → α → Prop) : Prop := ∀ vertex, ¬ Relation.TransGen parent vertex vertex

namespace DependencyFirst

variable {parent : α → α → Prop} {order : List α}

theorem nil : DependencyFirst parent [] := by
  intro before vertex after equal
  simp at equal

/-- One more vertex may be listed once all its parents are. -/
theorem snoc_iff {vertex : α}
    : DependencyFirst parent (order ++ [vertex])
      ↔ DependencyFirst parent order ∧ ∀ ancestor, parent vertex ancestor → ancestor ∈ order := by
  constructor
  · intro first
    refine ⟨?_, first order vertex [] rfl⟩
    intro before inner after equal
    exact first before inner (after ++ [vertex]) (by simp [equal])
  · rintro ⟨first, ready⟩ before inner after equal
    rcases List.eq_nil_or_concat after with rfl | ⟨rest, last, rfl⟩
    · obtain ⟨rfl, same⟩ := List.append_inj' equal rfl
      obtain rfl := List.head_eq_of_cons_eq same
      exact ready
    · have shorter : order ++ [vertex] = (before ++ inner :: rest) ++ [last] := by simpa using equal
      exact first before inner rest (List.append_inj' shorter rfl).1

section

variable (first : DependencyFirst parent order)

include first

/-- Parents of listed vertices are listed. -/
theorem mem_of_parent {vertex ancestor : α} (listed : vertex ∈ order)
    (edge : parent vertex ancestor)
    : ancestor ∈ order := by
  obtain ⟨before, after, equal⟩ := List.mem_iff_append.mp listed
  simp [equal, first before vertex after equal ancestor edge]

/-- Ancestors of listed vertices are listed. -/
theorem mem_of_ancestor {vertex ancestor : α} (listed : vertex ∈ order)
    (path : Relation.ReflTransGen parent vertex ancestor)
    : ancestor ∈ order := by
  induction path with
  | refl => exact listed
  | tail _ edge ih => exact first.mem_of_parent ih edge

/-- In a duplicate-free order, every parent link leads to a strictly smaller position. -/
theorem idxOf_lt [DecidableEq α] (distinct : order.Nodup) {vertex ancestor : α}
    (listed : vertex ∈ order) (edge : parent vertex ancestor)
    : order.idxOf ancestor < order.idxOf vertex := by
  obtain ⟨before, after, equal⟩ := List.mem_iff_append.mp listed
  have earlier := first before vertex after equal ancestor edge
  have fresh : vertex ∉ before := by
    intro again
    rw [equal] at distinct
    exact (List.nodup_append.mp distinct).2.2 vertex again vertex (by simp) rfl
  rw [equal, List.idxOf_append_of_mem earlier, List.idxOf_append_of_notMem fresh]
  have bound := List.idxOf_lt_length_iff.mpr earlier
  omega

/-- The positions decrease along every nonempty path of parent links. -/
theorem idxOf_lt_of_path [DecidableEq α] (distinct : order.Nodup) {vertex ancestor : α}
    (listed : vertex ∈ order) (path : Relation.TransGen parent vertex ancestor)
    : order.idxOf ancestor < order.idxOf vertex := by
  induction path with
  | single edge => exact first.idxOf_lt distinct listed edge
  | tail path edge ih =>
      have reached := first.mem_of_ancestor listed path.to_reflTransGen
      exact Nat.lt_trans (first.idxOf_lt distinct reached edge) ih

/-- A vertex that reaches everything listed is listed last. -/
theorem getLast?_of_root (distinct : order.Nodup) {root : α} (listed : root ∈ order)
    (reaches : ∀ vertex ∈ order, Relation.ReflTransGen parent root vertex)
    : order.getLast? = some root := by
  rcases List.eq_nil_or_concat order with rfl | ⟨init, last, rfl⟩
  · cases listed
  · rw [List.concat_eq_append] at first distinct listed reaches ⊢
    rw [List.getLast?_concat]
    rcases List.mem_append.mp listed with before | isLast
    · have again := (snoc_iff.mp first).1.mem_of_ancestor before (reaches last (by simp))
      exact absurd rfl ((List.nodup_append.mp distinct).2.2 last again last (by simp))
    · rw [List.mem_singleton.mp isLast]

/-- A relation whose parents are all listed in a dependency-first order is acyclic: a
vertex on a cycle is a parent.
-/
theorem acyclic (distinct : order.Nodup)
    (parents : ∀ vertex ancestor, parent vertex ancestor → ancestor ∈ order)
    : Acyclic parent := by
  classical
  intro vertex cycle
  obtain ⟨last, -, edge⟩ := Relation.TransGen.tail'_iff.mp cycle
  exact Nat.lt_irrefl _ (first.idxOf_lt_of_path distinct (parents last vertex edge) cycle)

/-- Induction along an order: a vertex may use the predicate of its parents. -/
theorem induction {holds : α → Prop}
    (step : ∀ vertex ∈ order, (∀ ancestor, parent vertex ancestor → holds ancestor) → holds vertex)
    : ∀ vertex ∈ order, holds vertex := by
  induction order using List.reverseRecOn with
  | nil => intro vertex member; cases member
  | append_singleton order last ih =>
      obtain ⟨init, ready⟩ := snoc_iff.mp first
      have earlier := ih init fun vertex member => step vertex (List.mem_append_left _ member)
      intro vertex member
      rcases List.mem_append.mp member with before | isLast
      · exact earlier vertex before
      · obtain rfl := List.mem_singleton.mp isLast
        exact step vertex (by simp) fun ancestor edge => earlier ancestor (ready ancestor edge)

/-- Dropping parent links keeps an order. -/
theorem mono {fewer : α → α → Prop}
    (included : ∀ vertex ancestor, vertex ∈ order → fewer vertex ancestor → parent vertex ancestor)
    : DependencyFirst fewer order := by
  intro before vertex after equal ancestor edge
  exact first before vertex after equal ancestor (included vertex ancestor (by simp [equal]) edge)

/-- Restricting the order to vertices closed under parents keeps it. -/
theorem filter {keep : α → Bool}
    (closed : ∀ vertex ancestor, vertex ∈ order → keep vertex → parent vertex ancestor → keep ancestor)
    : DependencyFirst parent (order.filter keep) := by
  induction order using List.reverseRecOn with
  | nil => exact nil
  | append_singleton order last ih =>
      obtain ⟨init, ready⟩ := snoc_iff.mp first
      have kept := ih init fun vertex ancestor listed =>
        closed vertex ancestor (List.mem_append_left _ listed)
      rw [List.filter_append]
      cases chosen : keep last with
      | false => simpa [chosen] using kept
      | true =>
          rw [List.filter_cons_of_pos chosen, List.filter_nil, snoc_iff]
          exact ⟨kept, fun ancestor edge => List.mem_filter.mpr
            ⟨ready ancestor edge, closed last ancestor (by simp) chosen edge⟩⟩

end

end DependencyFirst

end SpeculativeAction.Library
