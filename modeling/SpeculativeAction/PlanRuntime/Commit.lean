import SpeculativeAction.PlanRuntime.Replacement

/-! The state after a commit, described from the state before it. -/

namespace SpeculativeAction

open SpeculativeAction.Library

namespace PlanRuntime

variable {refs : List ℕ} {runtime : PlanRuntime} {input : CommitInput}

-- Joined graphs

theorem mem_addRef {ref other : ℕ}
    : other ∈ addRef refs ref ↔ other ∈ refs ∨ other = ref := by
  rw [addRef]
  split
  · grind
  · simp

theorem addRef_nodup (distinct : refs.Nodup) (ref : ℕ) : (addRef refs ref).Nodup := by
  rw [addRef]
  split
  · exact distinct
  next fresh =>
    exact List.nodup_append.mpr
      ⟨distinct, List.nodup_singleton ref, fun left inLeft right inRight same =>
        fresh (List.mem_singleton.mp inRight ▸ same ▸ inLeft)⟩

theorem mem_foldl_addRef {added : List ℕ} {other : ℕ}
    : other ∈ added.foldl addRef refs ↔ other ∈ refs ∨ other ∈ added := by
  induction added generalizing refs with
  | nil => simp
  | cons ref rest ih => simp only [List.foldl_cons, ih, mem_addRef, List.mem_cons]; grind

theorem foldl_addRef_nodup (added : List ℕ) (distinct : refs.Nodup)
    : (added.foldl addRef refs).Nodup := by
  induction added generalizing refs with
  | nil => exact distinct
  | cons ref rest ih => exact ih (addRef_nodup distinct ref)

/-- A graph is joined when it is the updated plan's, or that of a pinned parent's plan. -/
def Joins (runtime : PlanRuntime) (input : CommitInput) (graph : GraphRef) : Prop :=
  (∃ planRef, runtime.plans.get? input.id = some planRef ∧ (runtime.plan planRef).graph = graph)
  ∨ ∃ action ∈ input.actions.values,
      ∃ dependency ∈ action.dependsOn,
        ∃ pin target,
          dependency.pin = some pin
          ∧ runtime.plans.get? pin.proposalID = some target
          ∧ (runtime.plan target).graph = graph

theorem mem_connectedGraphs {graph : GraphRef}
    : graph ∈ runtime.connectedGraphs input (runtime.current input) ↔ runtime.Joins input graph := by
  simp only [connectedGraphs, mem_foldl_addRef, current, plan?, Joins, List.mem_flatMap,
    List.mem_filterMap, Option.mem_toList, Option.map_map, Option.bind_eq_some_iff,
    Option.map_eq_some_iff, Function.comp_apply]
  grind

theorem joinedPlans_nodup (runtime : PlanRuntime) (input : CommitInput)
    : (runtime.joinedPlans input).Nodup :=
  addRef_nodup (foldl_addRef_nodup _ .nil) _

theorem mem_joinedPlans {other : PlanRef}
    : other ∈ runtime.joinedPlans input
      ↔ other = runtime.planHeap.size
        ∨ (runtime.plans.get? input.id ≠ some other
          ∧ ∃ graph, runtime.Joins input graph ∧ other ∈ (runtime.graph graph).plans) := by
  simp only [joinedPlans, mem_addRef, mem_foldl_addRef, List.mem_filter, List.mem_flatMap,
    mem_connectedGraphs, List.not_mem_nil, false_or, decide_eq_true_eq]
  grind

/-- Only graphs of plans are joined. -/
theorem Joins.plan {graph : GraphRef} (joins : runtime.Joins input graph)
    : ∃ id planRef, runtime.plans.get? id = some planRef ∧ (runtime.plan planRef).graph = graph := by
  rcases joins with ⟨planRef, stored, same⟩ | ⟨_, _, _, _, pin, target, _, stored, same⟩
  · exact ⟨input.id, planRef, stored, same⟩
  · exact ⟨pin.proposalID, target, stored, same⟩

/-- Another stored plan is joined exactly when its graph is. -/
theorem Grouped.mem_joinedPlans (named : Named runtime) (grouped : Grouped runtime) {id : String}
    {planRef : PlanRef} (stored : runtime.plans.get? id = some planRef) (other : id ≠ input.id)
    : planRef ∈ runtime.joinedPlans input ↔ runtime.Joins input (runtime.plan planRef).graph := by
  rw [PlanRuntime.mem_joinedPlans]
  have bounded : planRef ≠ runtime.planHeap.size := Nat.ne_of_lt (named.planRef stored)
  have notCurrent : runtime.plans.get? input.id ≠ some planRef := fun current =>
    other (named.plan_unique stored current)
  constructor
  · rintro (last | ⟨-, graph, joins, member⟩)
    · exact absurd last bounded
    · obtain ⟨_, holder, holderStored, rfl⟩ := joins.plan
      rw [((grouped.members holderStored planRef).mp member).2]
      exact joins
  · intro joins
    refine .inr ⟨notCurrent, _, joins, ?_⟩
    exact (grouped.members stored planRef).mpr ⟨OrderedMap.mem_values_iff.mpr ⟨id, stored⟩, rfl⟩

/-- Every joined plan but the new one is stored under another id. -/
theorem Grouped.joined_stored (grouped : Grouped runtime) {planRef : PlanRef}
    (joined : planRef ∈ runtime.joinedPlans input) (old : planRef ≠ runtime.planHeap.size)
    : ∃ id, id ≠ input.id ∧ runtime.plans.get? id = some planRef := by
  rcases PlanRuntime.mem_joinedPlans.mp joined with last | ⟨notCurrent, graph, joins, member⟩
  · exact absurd last old
  · obtain ⟨_, holder, holderStored, rfl⟩ := joins.plan
    obtain ⟨id, stored⟩ :=
      OrderedMap.mem_values_iff.mp ((grouped.members holderStored planRef).mp member).1
    refine ⟨id, ?_, stored⟩
    rintro rfl
    exact notCurrent stored

-- The committed state

/-- The state a commit leaves: one new plan object and graph, joined plans moved to that
graph, and the placed nodes up to their windows.
-/
structure Committed (before : PlanRuntime) (input : CommitInput) (after : PlanRuntime) : Prop where
  plans : after.plans = before.plans.set input.id before.planHeap.size
  planCount : after.planHeap.size = before.planHeap.size + 1
  graphCount : after.graphHeap.size = before.graphHeap.size + 1
  nodeCount : after.nodeHeap.size = (before.placement input).nodeHeap.size
  nextPlan
    : after.plan before.planHeap.size
      = {
          before.nextPlan input with
          nextRevision := (after.plan before.planHeap.size).nextRevision
        }
  otherPlan
    : ∀ ref,
        ref ≠ before.planHeap.size
        → after.plan ref
          = {
              before.plan ref with
              nextRevision := (after.plan ref).nextRevision
              graph :=
                if ref ∈ before.joinedPlans input then before.graphHeap.size
                else (before.plan ref).graph
            }
  otherGraph : ∀ ref, ref ≠ before.graphHeap.size → after.graph ref = before.graph ref
  nextGraph
    : after.graph before.graphHeap.size
      = ⟨before.joinedPlans input, after.graphOrder (before.joinedPlans input)⟩
  node
    : ∀ ref,
        (after.node ref).withoutWindows
        = ((before.placement input).nodeHeap.read ref).withoutWindows

/-- Linking the graph only writes the new graph object. -/
theorem linkGraph_graphOrder (runtime : PlanRuntime) (input : CommitInput) (plans : List PlanRef)
    : (runtime.linkGraph input).graphOrder plans = (runtime.placePlan input).graphOrder plans :=
  rfl

theorem SameGraph.graphOrder {before after : PlanRuntime}
    (same : SameGraph MutableNode.placed before after) (plans : List PlanRef)
    : after.graphOrder plans = before.graphOrder plans := by
  unfold PlanRuntime.graphOrder
  rw [funext same.nodesOf, funext same.parents]

/-- The description of every commit: the placed state, framed over its recomputation. -/
theorem committed (runtime : PlanRuntime) (input : CommitInput)
    : Committed runtime input (runtime.commit input).1 := by
  have same := recompute_sameGraph (runtime.linkGraph input) runtime.graphHeap.size
  have placed := same.mono fun _ _ => MutableNode.placed_of_withoutWindows
  have idempotent (plan : MutablePlan)
      : ({ { plan with graph := runtime.graphHeap.size } with graph := runtime.graphHeap.size }
          : MutablePlan) = { plan with graph := runtime.graphHeap.size } := rfl
  have linkedPlan (ref : PlanRef)
      : (runtime.linkGraph input).plan ref
        = if ref ∈ runtime.joinedPlans input then
            {
              (runtime.planHeap.alloc (runtime.nextPlan input)).read ref with
              graph := runtime.graphHeap.size
            }
          else (runtime.planHeap.alloc (runtime.nextPlan input)).read ref :=
    Heap.read_modifyAll idempotent _ _ ref
  have recomputed
      : (runtime.commit input).1
        = (runtime.linkGraph input).recompute runtime.graphHeap.size := rfl
  rw [recomputed]
  refine {
    plans := same.plans
    planCount := same.planCount.trans (Heap.size_modifyAll _ _ _)
    graphCount := congrArg Heap.size same.graphHeap
    nodeCount := same.nodeCount
    nextPlan := ?_
    otherPlan := fun ref other => ?_
    otherGraph := fun ref other => ?_
    nextGraph := ?_
    node := same.node
  }
  · refine (same.plan _).trans ?_
    rw [linkedPlan, Heap.read_alloc_self, if_pos (mem_joinedPlans.mpr (.inl rfl))]
    rfl
  · refine (same.plan _).trans ?_
    rw [linkedPlan, Heap.read_alloc_of_ne _ _ other]
    split <;> rfl
  · rw [same.graph]
    exact Heap.read_alloc_of_ne _ _ other
  · rw [same.graph, placed.graphOrder, linkGraph_graphOrder]
    exact Heap.read_alloc_self _ _

end PlanRuntime

end SpeculativeAction
