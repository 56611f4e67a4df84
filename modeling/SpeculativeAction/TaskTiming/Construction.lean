import Mathlib.Data.Fin.Tuple.Basic
import SpeculativeAction.TaskTiming.Model

/-! How a timeline grows: the constructor adds a computation over earlier ones and makes itself
the owner of its owned inputs.
-/

namespace SpeculativeAction.TaskTiming

variable {n : ℕ}

def TimelineDependency.lift (dependency : TimelineDependency n) : TimelineDependency (n + 1) :=
  { dependency with
    computation := dependency.computation.castSucc
    shared := dependency.shared.map Fin.castSucc }

def TimelineInterval.lift (computation : TimelineInterval n) : TimelineInterval (n + 1) :=
  { computation with
    inputs := computation.inputs.map TimelineDependency.lift
    owner := computation.owner.map Fin.castSucc }

/-- `new TimelineInterval`: the last of its owners is the owner of a computation. -/
def Timeline.construct (graph : Timeline n) (created : TimelineInterval n) : Timeline (n + 1) :=
  fun index =>
    Fin.lastCases (motive := fun _ => TimelineInterval (n + 1))
      { created.lift with owner := none }
      (fun earlier =>
        { (graph earlier).lift with
          owner :=
            if created.inputs.any fun input => input.owned && decide (input.computation = earlier)
            then some (Fin.last n)
            else (graph earlier).owner.map Fin.castSucc })
      index

/-- What the constructor establishes: it makes itself the owner of its owned inputs, which were
constructed before it.
-/
structure Constructed (graph : Timeline n) : Prop where
  owner
    : ∀ current owner, (graph current).owner = some owner →
        current < owner
          ∧ ∃ input ∈ (graph owner).inputs, input.computation = current ∧ input.owned = true
  owned
    : ∀ current, ∀ input ∈ (graph current).inputs, input.owned = true →
        (graph input.computation).owner ≠ none

theorem constructed_empty (graph : Timeline 0) : Constructed graph where
  owner current := current.elim0
  owned current := current.elim0

@[simp] theorem construct_last (graph : Timeline n) (created : TimelineInterval n)
    : graph.construct created (Fin.last n) = { created.lift with owner := none } :=
  Fin.lastCases_last

@[simp] theorem construct_castSucc (graph : Timeline n) (created : TimelineInterval n)
    (earlier : Fin n)
    : graph.construct created earlier.castSucc
      = { (graph earlier).lift with
          owner :=
            if created.inputs.any fun input => input.owned && decide (input.computation = earlier)
            then some (Fin.last n)
            else (graph earlier).owner.map Fin.castSucc } :=
  Fin.lastCases_castSucc earlier

/-- Constructing another computation keeps the ownership in order. -/
theorem Constructed.construct {graph : Timeline n} (constructed : Constructed graph)
    (created : TimelineInterval n)
    : Constructed (graph.construct created) where
  owner current owner owned := by
    induction current using Fin.lastCases with
    | last =>
        rw [construct_last] at owned
        cases owned
    | cast earlier =>
        rw [construct_castSucc] at owned
        simp only at owned
        split at owned
        next taken =>
          obtain rfl := Option.some.inj owned
          obtain ⟨input, listed, flags⟩ := List.any_eq_true.mp taken
          rw [Bool.and_eq_true, decide_eq_true_eq] at flags
          refine ⟨Fin.castSucc_lt_last earlier, input.lift, ?_, ?_, flags.1⟩
          · rw [construct_last]
            exact List.mem_map_of_mem listed
          · exact congrArg Fin.castSucc flags.2
        next =>
          obtain ⟨above, known, rfl⟩ := Option.map_eq_some_iff.mp owned
          obtain ⟨later, input, listed, same, flag⟩ := constructed.owner earlier above known
          refine ⟨Fin.castSucc_lt_castSucc_iff.mpr later, input.lift, ?_, ?_, flag⟩
          · rw [construct_castSucc]
            exact List.mem_map_of_mem listed
          · exact congrArg Fin.castSucc same
  owned current input listed owns := by
    induction current using Fin.lastCases with
    | last =>
        rw [construct_last] at listed
        obtain ⟨source, member, rfl⟩ := List.mem_map.mp listed
        have taken
            : created.inputs.any (fun input =>
                input.owned && decide (input.computation = source.computation)) = true := by
          refine List.any_eq_true.mpr ⟨source, member, ?_⟩
          rw [Bool.and_eq_true, decide_eq_true_eq]
          exact ⟨owns, rfl⟩
        simp only [TimelineDependency.lift, construct_castSucc, taken, if_true]
        exact Option.some_ne_none _
    | cast earlier =>
        rw [construct_castSucc] at listed
        obtain ⟨source, member, rfl⟩ := List.mem_map.mp listed
        have before := constructed.owned earlier source member owns
        simp only [TimelineDependency.lift, construct_castSucc]
        split
        · exact Option.some_ne_none _
        · simpa using before

/-- The timelines that calls of the constructor build, one computation after the other. -/
inductive Built : {n : ℕ} → Timeline n → Prop
  | empty (graph : Timeline 0) : Built graph
  | construct {n : ℕ} {graph : Timeline n} (built : Built graph) (created : TimelineInterval n)
    : Built (graph.construct created)

/-- Every timeline that is built has its ownership in order, by induction on the calls. -/
theorem Built.constructed {graph : Timeline n} (built : Built graph) : Constructed graph := by
  induction built with
  | empty graph => exact constructed_empty graph
  | construct _ created constructed => exact constructed.construct created

end SpeculativeAction.TaskTiming
