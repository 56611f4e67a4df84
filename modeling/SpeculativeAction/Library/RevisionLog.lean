import SpeculativeAction.Library.OrderedMap

/-! A log that keeps, for each key, the revision at which it last changed. Revisions grow
with every commit, so a reader that noted a revision can tell which keys changed since.
-/

namespace SpeculativeAction.Library

/-- Per-key change revisions, none of them above the current one. -/
structure RevisionLog (K : Type*) [DecidableEq K] where
  current : ℕ
  changes : OrderedMap K ℕ
  bounded : changes.Forall fun _ revision => revision ≤ current

namespace RevisionLog

variable {K : Type*} [DecidableEq K]

def empty : RevisionLog K := ⟨0, .empty, .empty⟩

/-- The revision at which the key last changed; an unknown key changed at revision 0. -/
def revision (log : RevisionLog K) (key : K) : ℕ :=
  (log.changes.get? key).getD 0

/-- Commit one transaction: the next revision, noted for every touched key. -/
def commit (log : RevisionLog K) (touched : List K) : RevisionLog K where
  current := log.current + 1
  changes := touched.foldl (fun changes key => changes.set key (log.current + 1)) log.changes
  bounded := .setAll touched (fun key revision found =>
    Nat.le_succ_of_le (log.bounded key revision found)) fun _ _ => Nat.le_refl _

/-- Drop the note about one key. -/
def forget (log : RevisionLog K) (key : K) : RevisionLog K where
  current := log.current
  changes := log.changes.delete key
  bounded := log.bounded.delete key

/-- Drop every note. -/
def forgetAll (log : RevisionLog K) : RevisionLog K where
  current := log.current
  changes := .empty
  bounded := .empty

@[simp] theorem current_commit (log : RevisionLog K) (touched : List K)
    : (log.commit touched).current = log.current + 1 := rfl

@[simp] theorem current_forget (log : RevisionLog K) (key : K)
    : (log.forget key).current = log.current := rfl

@[simp] theorem current_forgetAll (log : RevisionLog K)
    : log.forgetAll.current = log.current := rfl

/-- No key changed after the current revision. -/
theorem revision_le (log : RevisionLog K) (key : K) : log.revision key ≤ log.current := by
  unfold revision
  rcases found : log.changes.get? key with _ | revision
  · exact Nat.zero_le _
  · exact log.bounded key revision found

/-- A commit notes the touched keys, by induction over them. -/
theorem revision_commit (log : RevisionLog K) (touched : List K) (key : K)
    : (log.commit touched).revision key
      = if key ∈ touched then log.current + 1 else log.revision key := by
  simp only [revision, commit]
  generalize log.changes = changes
  induction touched generalizing changes with
  | nil => simp
  | cons first rest ih =>
      simp only [List.foldl_cons, ih, List.mem_cons, OrderedMap.get?_set]
      by_cases later : key ∈ rest
      · simp [later]
      · by_cases same : key = first <;> simp [later, same]

theorem revision_commit_of_not_mem (log : RevisionLog K) {touched : List K} {key : K}
    (absent : key ∉ touched)
    : (log.commit touched).revision key = log.revision key := by
  rw [revision_commit, if_neg absent]

/-- A commit never moves a key back. -/
theorem revision_le_commit (log : RevisionLog K) (touched : List K) (key : K)
    : log.revision key ≤ (log.commit touched).revision key := by
  rw [revision_commit]
  split
  · exact Nat.le_succ_of_le (log.revision_le key)
  · exact Nat.le_refl _

theorem revision_forget (log : RevisionLog K) (key other : K)
    : (log.forget key).revision other = if other = key then 0 else log.revision other := by
  simp only [revision, forget, OrderedMap.get?_delete]
  split <;> rfl

/-- Forgetting one key leaves the others alone. -/
theorem revision_forget_of_ne (log : RevisionLog K) {key other : K} (different : other ≠ key)
    : (log.forget key).revision other = log.revision other := by
  rw [revision_forget, if_neg different]

end RevisionLog

end SpeculativeAction.Library
