import Mathlib.Data.List.Chain
import Mathlib.Data.Nat.Notation
import Mathlib.Order.Bounds.Defs

/-! Longest chains of a relation, from the counts its vertices carry. -/

namespace SpeculativeAction.Library

variable {α : Type*}

/-- A list that continues `vertex` along the relation. -/
def Continues (edge : α → α → Prop) (vertex : α) (chain : List α) : Prop :=
  (vertex :: chain).IsChain edge

/-- Counts that exceed those of all successors and are attained at one, or are one, give
the longest chains; only vertices inside a set closed under the relation need them.
-/
theorem isGreatest_of_counts {edge : α → α → Prop} (inside : α → Prop) (count : α → ℕ)
    (closed : ∀ vertex next, inside vertex → edge vertex next → inside next)
    (exceeds : ∀ vertex next, inside vertex → edge vertex next → count next < count vertex)
    (attained
      : ∀ vertex,
          inside vertex
          → count vertex = 1 ∨ ∃ next, edge vertex next ∧ count vertex = count next + 1)
    {vertex : α} (member : inside vertex)
    : IsGreatest {length | ∃ chain, Continues edge vertex chain ∧ length = 1 + chain.length}
        (count vertex) := by
  constructor
  · have achieve (bound : ℕ) (vertex : α) (member : inside vertex) (small : count vertex ≤ bound)
        : ∃ chain, Continues edge vertex chain ∧ count vertex = 1 + chain.length := by
      induction bound generalizing vertex with
      | zero =>
          rcases attained vertex member with one | ⟨next, -, more⟩ <;> omega
      | succ bound ih =>
          rcases attained vertex member with one | ⟨next, step, more⟩
          · exact ⟨[], .singleton vertex, one⟩
          · obtain ⟨chain, continues, length⟩ :=
              ih next (closed vertex next member step) (by omega)
            refine ⟨next :: chain, continues.cons_cons step, ?_⟩
            rw [List.length_cons]
            omega
    exact achieve (count vertex) vertex member (Nat.le_refl _)
  · rintro length ⟨chain, continues, rfl⟩
    induction chain generalizing vertex with
    | nil =>
        rcases attained vertex member with one | ⟨next, -, more⟩
        · rw [List.length_nil]
          omega
        · rw [List.length_nil]
          omega
    | cons next rest ih =>
        obtain ⟨step, tail⟩ := List.isChain_cons_cons.mp continues
        have shorter := ih (closed vertex next member step) tail
        have less := exceeds vertex next member step
        rw [List.length_cons]
        omega

end SpeculativeAction.Library
