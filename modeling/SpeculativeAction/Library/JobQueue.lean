import Mathlib.Data.List.Basic

/-! Chains of jobs that share one queue. The first job of the queue runs and the next job of its
chain goes to the back, so two chains race round by round: the one with fewer jobs left ends first,
and of two with equally many the one that is ahead in the queue.
-/

namespace SpeculativeAction.Library

variable {Job : Type*}

/-- Two jobs in the order of the queue. `soon` and `late` give the number of jobs that follow in a
chain of either kind; no chain of the second kind ends before one of the first.
-/
structure Ahead (soon late : Job → Option ℕ) (first second : Job) : Prop where
  reaches : ∀ left right, soon first = some left → late second = some right → left ≤ right
  overtakes : ∀ left right, soon second = some left → late first = some right → left < right

/-- The chains of the first kind in the queue end before those of the second. -/
def Outruns (soon late : Job → Option ℕ) (queue : List Job) : Prop :=
  queue.Pairwise (Ahead soon late)

/-- The next job of a chain has one job less to follow. -/
structure Advances (left : Job → Option ℕ) (job next : Job) : Prop where
  shorter : ∀ count, left next = some count → left job = some (count + 1)

section Queues

variable {soon late : Job → Option ℕ} {job next : Job} {rest queue : List Job}

theorem Outruns.nil : Outruns soon late [] := List.Pairwise.nil

theorem Outruns.tail (outruns : Outruns soon late (job :: rest)) : Outruns soon late rest :=
  (List.pairwise_cons.mp outruns).2

/-- A job that every other one is ahead of goes to the back. -/
theorem Outruns.push (outruns : Outruns soon late queue)
    (ahead : ∀ other ∈ queue, Ahead soon late other next)
    : Outruns soon late (queue ++ [next]) := by
  refine List.pairwise_append.mpr ⟨outruns, List.pairwise_singleton _ _, ?_⟩
  intro other member last isLast
  rw [List.mem_singleton.mp isLast]
  exact ahead other member

/-- The first job runs and the next one of its chain goes to the back. -/
theorem Outruns.rotate (outruns : Outruns soon late (job :: rest))
    (soonAdvances : Advances soon job next) (lateAdvances : Advances late job next)
    : Outruns soon late (rest ++ [next]) := by
  obtain ⟨first, later⟩ := List.pairwise_cons.mp outruns
  refine Outruns.push later fun other member => ⟨?_, ?_⟩
  · intro left right soonOther lateNext
    have overtaken :=
      (first other member).overtakes left (right + 1) soonOther (lateAdvances.shorter _ lateNext)
    omega
  · intro left right soonNext lateOther
    have reached :=
      (first other member).reaches (left + 1) right (soonAdvances.shorter _ soonNext) lateOther
    omega

/-- A chain of the second kind only ends when none of the first kind is left. -/
theorem Outruns.none_left (outruns : Outruns soon late (job :: rest)) (last : late job = some 0)
    : ∀ other ∈ rest, soon other = none := by
  intro other member
  cases waiting : soon other with
  | none => rfl
  | some left =>
      have ahead := (List.pairwise_cons.mp outruns).1 other member
      exact absurd (ahead.overtakes left 0 waiting last) (Nat.not_lt_zero left)

end Queues

end SpeculativeAction.Library
