import Mathlib.Order.Bounds.Basic
import SpeculativeAction.PlanRuntime.Coherence

/-! What recomputing a graph establishes: every window and critical path of its nodes
satisfies its recurrence, because both passes follow a dependency-first order.
-/

namespace SpeculativeAction

open SpeculativeAction.Library

namespace PlanRuntime

variable {ref : NodeRef} {runtime : PlanRuntime} {order : List NodeRef}

-- Windows

/-- The three cached decision windows of a node. -/
inductive Window where
  | earliest | expected | latest

namespace Window

def read (window : Window) (node : MutableNode) : ℕ∞ :=
  match window with
  | .earliest => node.earliestDecisionSeq
  | .expected => node.expectedDecisionSeq
  | .latest => node.latestDecisionSeq

/-- How many decisions after its anchor an action is due, by window. -/
def due (window : Window) (action : PlanAction) : ℕ :=
  match window with
  | .earliest => 0
  | .expected => horizon action
  | .latest => latestHorizon action

/-- The own base of a window: the matched Actor decision, else the anchor and the horizon. -/
def own (window : Window) (node : MutableNode) : ℕ∞ :=
  match node.opportunity.matchedAction? with
  | some actorAction => actorDecisionSequence actorAction
  | none => dueAfter node.anchorDecisionSeq (window.due node.action)

theorem read_withBaseWindow (window : Window) (node : MutableNode)
    : window.read (withBaseWindow node) = window.own node := by
  cases window <;> cases matched : node.opportunity.matchedAction? <;>
    simp [read, own, due, withBaseWindow, matched, dueAfter]

/-- One dependency moves every window past its parent, when it resolves. -/
theorem read_advanceWindow (window : Window) (node : MutableNode) (parent : Option MutableNode)
    : window.read (advanceWindow node parent)
      = match parent with
        | none => window.read node
        | some parent =>
            maxCounts (window.read node)
              (addCounts (window.read parent) (batchAdvance parent)) := by
  cases parent <;> cases window <;> rfl

end Window

/-- What a list of dependencies makes of a window. -/
def windowAfter (runtime : PlanRuntime) (window : Window) (start : ℕ∞) (parents : List NodeRef)
    : ℕ∞ :=
  (parents.map fun parent =>
    addCounts (window.read (runtime.node parent)) (batchAdvance (runtime.node parent))).foldl
      maxCounts start

theorem read_foldl_advanceWindow (runtime : PlanRuntime) (window : Window)
    (resolved : List (Option NodeRef)) (node : MutableNode)
    : window.read ((resolved.map (Option.map runtime.node)).foldl advanceWindow node)
      = runtime.windowAfter window (window.read node) (resolved.filterMap id) := by
  induction resolved generalizing node with
  | nil => rfl
  | cons parent rest ih =>
      rw [List.map_cons, List.foldl_cons, ih, window.read_advanceWindow]
      cases parent <;> rfl

theorem valid_foldl_advanceWindow (runtime : PlanRuntime) (resolved : List (Option NodeRef))
    (node : MutableNode)
    : ((resolved.map (Option.map runtime.node)).foldl advanceWindow node).validDependencies = true
      ↔ node.validDependencies = true
        ∧ ∀ entry ∈ resolved,
            ∃ parent, entry = some parent ∧ (runtime.node parent).validDependencies = true := by
  induction resolved generalizing node with
  | nil => simp
  | cons parent rest ih =>
      rw [List.map_cons, List.foldl_cons, ih]
      cases parent with
      | none => simp [advanceWindow]
      | some parent => simp [advanceWindow, and_assoc]

-- The forward pass

/-- The recurrences of the forward pass at one node. -/
structure ForwardTimed (runtime : PlanRuntime) (ref : NodeRef) : Prop where
  valid
    : (runtime.node ref).validDependencies = true
      ↔ ∀ dependency ∈ (runtime.node ref).action.dependsOn,
          ∃ parent,
            runtime.parent? (runtime.node ref).identity.proposalID dependency = some parent
            ∧ (runtime.node parent).validDependencies = true
  window
    : ∀ window : Window,
        window.read (runtime.node ref)
        = runtime.windowAfter window (window.own (runtime.node ref)) (runtime.parents ref)

/-- A node without its critical path, which the forward pass does not compute. -/
def withoutSteps (node : MutableNode) : MutableNode := { node with criticalPathSteps := 0 }

theorem windowed_of_withoutSteps {left right : MutableNode}
    (same : withoutSteps left = withoutSteps right)
    : left.windowed = right.windowed := by
  have windowedOf (node : MutableNode) : node.windowed = (withoutSteps node).windowed := rfl
  rw [windowedOf left, same, ← windowedOf]

section

variable {left right : MutableNode} (same : left.windowed = right.windowed)

include same

theorem Window.read_of_windowed (window : Window) : window.read left = window.read right := by
  simp only [MutableNode.windowed, Prod.mk.injEq] at same
  cases window <;> simp only [read, same]

theorem Window.own_of_windowed (window : Window) : window.own left = window.own right := by
  simp only [MutableNode.windowed, MutableNode.placed, Prod.mk.injEq] at same
  simp only [own, same]

theorem batchAdvance_of_windowed : batchAdvance left = batchAdvance right := by
  simp only [MutableNode.windowed, MutableNode.placed, Prod.mk.injEq] at same
  simp only [batchAdvance, same]

theorem valid_of_windowed : left.validDependencies = right.validDependencies := by
  simp only [MutableNode.windowed, Prod.mk.injEq] at same
  simp only [same]

end

/-- Nodes that agree on their windows resolve the same parents when their dependencies do. -/
theorem parents_of_resolves {before after : PlanRuntime}
    (here : (after.node ref).windowed = (before.node ref).windowed)
    (resolves
      : ∀ dependency ∈ (before.node ref).action.dependsOn,
          after.parent? (before.node ref).identity.proposalID dependency
          = before.parent? (before.node ref).identity.proposalID dependency)
    : after.parents ref = before.parents ref := by
  simp only [MutableNode.windowed, MutableNode.placed, Prod.mk.injEq] at here
  rw [PlanRuntime.parents, here.1.1, here.1.2.1]
  exact List.filterMap_congr resolves

/-- The recurrences only read the node and its parents. -/
theorem ForwardTimed.transport {before after : PlanRuntime} (timed : ForwardTimed before ref)
    (resolves
      : ∀ dependency ∈ (before.node ref).action.dependsOn,
          after.parent? (before.node ref).identity.proposalID dependency
          = before.parent? (before.node ref).identity.proposalID dependency)
    (here : (after.node ref).windowed = (before.node ref).windowed)
    (above
      : ∀ parent ∈ before.parents ref,
          (after.node parent).windowed = (before.node parent).windowed)
    : ForwardTimed after ref := by
  have parents := parents_of_resolves here resolves
  refine ⟨?_, fun window => ?_⟩
  · have placed := here
    simp only [MutableNode.windowed, MutableNode.placed, Prod.mk.injEq] at placed
    rw [valid_of_windowed here, timed.valid, placed.1.1, placed.1.2.1]
    refine forall₂_congr fun dependency declared => exists_congr fun parent => ?_
    rw [resolves dependency declared]
    refine and_congr_right fun resolved => ?_
    rw [valid_of_windowed (above parent (parent_iff.mpr ⟨dependency, declared, resolved⟩))]
  · rw [Window.read_of_windowed here, timed.window, Window.own_of_windowed here, parents,
      windowAfter, windowAfter]
    congr 1
    refine List.map_congr_left fun parent member => ?_
    rw [Window.read_of_windowed (above parent member), batchAdvance_of_windowed (above parent member)]

/-- Writing one node leaves all others as they were. -/
theorem node_setNode_of_ne (runtime : PlanRuntime) {other : NodeRef} (node : MutableNode)
    (different : other ≠ ref)
    : (runtime.setNode ref node).node other = runtime.node other :=
  Heap.read_write_of_ne _ _ different

theorem node_setNode_self (runtime : PlanRuntime) (ref : NodeRef) (node : MutableNode)
    : (runtime.setNode ref node).node ref = node :=
  Heap.read_write_self _ _ _

/-- One step establishes the recurrences of its node, if that is not its own parent. -/
theorem forwardNode_timed (noLoop : ref ∉ runtime.parents ref)
    : ForwardTimed (runtime.forwardNode ref) ref
      ∧ ((runtime.forwardNode ref).node ref).criticalPathSteps = 0 := by
  let resolved := (runtime.node ref).action.dependsOn.map
    (runtime.parent? (runtime.node ref).identity.proposalID)
  have written
      : (runtime.forwardNode ref).node ref
        = (resolved.map (Option.map runtime.node)).foldl advanceWindow
            (withBaseWindow (runtime.node ref)) := by
    rw [forwardNode, node_setNode_self]
    simp only [resolved, List.map_map]
    rfl
  have same := (forwardNode_sameGraph runtime ref).mono fun _ _ =>
    MutableNode.placed_of_withoutWindows
  have others (parent : NodeRef) (member : parent ∈ runtime.parents ref)
      : (runtime.forwardNode ref).node parent = runtime.node parent :=
    node_setNode_of_ne _ _ fun here => noLoop (here ▸ member)
  have kept := (forwardNode_sameGraph runtime ref).node ref
  refine ⟨⟨?_, fun window => ?_⟩, ?_⟩
  · rw [same.action, same.identity, written, valid_foldl_advanceWindow]
    simp only [withBaseWindow, true_and, resolved, List.mem_map, forall_exists_index, and_imp,
      forall_apply_eq_imp_iff₂, same.parent?]
    refine forall₂_congr fun dependency declared => exists_congr fun parent => ?_
    refine and_congr_right fun found => ?_
    rw [others parent (parent_iff.mpr ⟨dependency, declared, found⟩)]
  · have own : window.own ((runtime.forwardNode ref).node ref) = window.own (runtime.node ref) := by
      have ownOf (node : MutableNode) : window.own node = window.own node.withoutWindows := rfl
      rw [ownOf, kept, ← ownOf]
    rw [own, same.parents, written, read_foldl_advanceWindow, window.read_withBaseWindow,
      windowAfter, windowAfter]
    have listed : resolved.filterMap id = runtime.parents ref := by
      simp only [resolved, List.filterMap_map, parents]
      rfl
    rw [listed]
    congr 1
    refine List.map_congr_left fun parent member => ?_
    rw [others parent member]
  · rw [written]
    generalize runtime.node ref = node
    have start : (withBaseWindow node).criticalPathSteps = 0 := rfl
    revert start
    generalize withBaseWindow node = base
    intro start
    induction resolved.map (Option.map runtime.node) generalizing base with
    | nil => exact start
    | cons parent rest ih =>
        refine ih _ ?_
        cases parent <;> exact start

/-- After the forward pass every listed node satisfies its recurrences, by induction on the
order: the parents of the next node are listed before it.
-/
theorem forward_timed (distinct : order.Nodup) (first : DependencyFirst runtime.Parent order)
    : (∀ ref ∉ order, (order.foldl forwardNode runtime).node ref = runtime.node ref)
      ∧ ∀ ref ∈ order,
          ForwardTimed (order.foldl forwardNode runtime) ref
          ∧ ((order.foldl forwardNode runtime).node ref).criticalPathSteps = 0 := by
  induction order using List.reverseRecOn with
  | nil => exact ⟨fun _ _ => rfl, fun _ member => by cases member⟩
  | append_singleton order last ih =>
      rw [List.nodup_append] at distinct
      obtain ⟨init, ready⟩ := DependencyFirst.snoc_iff.mp first
      obtain ⟨outside, inside⟩ := ih distinct.1 init
      have same := (SameGraph.foldl forwardNode_sameGraph order runtime).mono fun _ _ =>
        MutableNode.placed_of_withoutWindows
      have fresh : last ∉ order := fun again => distinct.2.2 _ again _ (by simp) rfl
      rw [List.foldl_append, List.foldl_cons, List.foldl_nil]
      revert outside inside same
      generalize order.foldl forwardNode runtime = middle
      intro outside inside same
      have noLoop : last ∉ middle.parents last := by
        rw [same.parents]
        exact fun loop => fresh (ready last loop)
      have others {ref : NodeRef} (different : ref ≠ last)
          : (middle.forwardNode last).node ref = middle.node ref :=
        node_setNode_of_ne _ _ different
      have step := (forwardNode_sameGraph middle last).mono fun _ _ =>
        MutableNode.placed_of_withoutWindows
      refine ⟨fun ref unlisted => ?_, fun ref member => ?_⟩
      · rw [List.mem_append, not_or, List.mem_singleton] at unlisted
        rw [others unlisted.2, outside ref unlisted.1]
      · by_cases isLast : ref = last
        · rw [isLast]
          exact forwardNode_timed noLoop
        · have listed : ref ∈ order := by simpa [isLast] using member
          rw [others isLast]
          refine ⟨(inside ref listed).1.transport ?_ ?_ ?_, (inside ref listed).2⟩
          · exact fun dependency _ => step.parent? _ dependency
          · exact congrArg MutableNode.windowed (others isLast)
          · intro parent edge
            rw [same.parents] at edge
            have earlier := init.mem_of_parent listed edge
            rw [others fun here => fresh (here ▸ earlier)]

-- The backward pass

/-- The largest critical path among the listed dependents of a node. -/
def dependentSteps (runtime : PlanRuntime) (ref : NodeRef) : List NodeRef → ℕ
  | [] => 0
  | dependent :: rest =>
      max
        (if ref ∈ runtime.parents dependent then (runtime.node dependent).criticalPathSteps else 0)
        (runtime.dependentSteps ref rest)

theorem dependentSteps_congr {before after : PlanRuntime} {listed : List NodeRef}
    (parents : ∀ dependent ∈ listed, after.parents dependent = before.parents dependent)
    (steps
      : ∀ dependent ∈ listed,
          (after.node dependent).criticalPathSteps = (before.node dependent).criticalPathSteps)
    : after.dependentSteps ref listed = before.dependentSteps ref listed := by
  induction listed with
  | nil => rfl
  | cons dependent rest ih =>
      rw [dependentSteps, dependentSteps, parents dependent (by simp), steps dependent (by simp),
        ih (fun other member => parents other (List.mem_cons_of_mem _ member))
          fun other member => steps other (List.mem_cons_of_mem _ member)]

/-- The dependents bound the steps, and one of them attains a nonzero value. -/
theorem dependentSteps_spec (runtime : PlanRuntime) (ref : NodeRef) (listed : List NodeRef)
    : (∀ dependent ∈ listed,
        runtime.Parent dependent ref
        → (runtime.node dependent).criticalPathSteps ≤ runtime.dependentSteps ref listed)
      ∧ (runtime.dependentSteps ref listed = 0
        ∨ ∃ dependent ∈ listed,
            runtime.Parent dependent ref
            ∧ runtime.dependentSteps ref listed
              = (runtime.node dependent).criticalPathSteps) := by
  induction listed with
  | nil => exact ⟨by simp, .inl rfl⟩
  | cons dependent rest ih =>
      obtain ⟨bound, attained⟩ := ih
      by_cases edge : ref ∈ runtime.parents dependent
      · simp only [dependentSteps, edge, ite_true]
        refine ⟨fun other member isParent => ?_, ?_⟩
        · rcases List.mem_cons.mp member with rfl | later
          · exact Nat.le_max_left _ _
          · exact Nat.le_trans (bound other later isParent) (Nat.le_max_right _ _)
        · rcases Nat.le_total (runtime.dependentSteps ref rest)
            (runtime.node dependent).criticalPathSteps with small | large
          · exact .inr ⟨dependent, by simp, edge, Nat.max_eq_left small⟩
          · rw [Nat.max_eq_right large]
            exact attained.imp_right fun ⟨other, member, found⟩ =>
              ⟨other, List.mem_cons_of_mem _ member, found⟩
      · simp only [dependentSteps, edge, ite_false, Nat.zero_max]
        refine ⟨fun other member isParent => ?_, ?_⟩
        · rcases List.mem_cons.mp member with rfl | later
          · exact absurd isParent edge
          · exact bound other later isParent
        · exact attained.imp_right fun ⟨other, member, found⟩ =>
            ⟨other, List.mem_cons_of_mem _ member, found⟩

theorem liftParent_withoutSteps (steps : ℕ) (runtime : PlanRuntime) (ref : NodeRef)
    : SameGraph withoutSteps runtime (liftParent steps runtime ref) :=
  .setNode rfl

/-- Lifting parents raises exactly their critical paths. -/
theorem liftParents_steps (steps : ℕ) (parents : List NodeRef) (runtime : PlanRuntime)
    (ref : NodeRef)
    : ((parents.foldl (liftParent steps) runtime).node ref).criticalPathSteps
      = if ref ∈ parents then max (runtime.node ref).criticalPathSteps steps
        else (runtime.node ref).criticalPathSteps := by
  induction parents generalizing runtime with
  | nil => simp
  | cons parent rest ih =>
      rw [List.foldl_cons, ih]
      by_cases here : ref = parent
      · subst here
        have lifted : ((liftParent steps runtime ref).node ref).criticalPathSteps
            = max (runtime.node ref).criticalPathSteps steps := by
          rw [liftParent, node_setNode_self]
        simp [lifted]
      · have kept : (liftParent steps runtime parent).node ref = runtime.node ref :=
          node_setNode_of_ne _ _ here
        simp [kept, here]

/-- One backward step counts its node and lifts its parents. -/
theorem backwardNode_steps {node : NodeRef} (noLoop : node ∉ runtime.parents node)
    : SameGraph withoutSteps runtime (runtime.backwardNode node)
      ∧ ∀ ref,
          ((runtime.backwardNode node).node ref).criticalPathSteps
          = if ref = node then (runtime.node node).criticalPathSteps + 1
            else if ref ∈ runtime.parents node then
              max (runtime.node ref).criticalPathSteps ((runtime.node node).criticalPathSteps + 1)
            else (runtime.node ref).criticalPathSteps := by
  have counted
      : SameGraph withoutSteps runtime
          (runtime.setNode node
            {
              runtime.node node with
              criticalPathSteps := (runtime.node node).criticalPathSteps + 1
            }) :=
    .setNode rfl
  have placed
      : SameGraph MutableNode.placed runtime
          (runtime.setNode node
            {
              runtime.node node with
              criticalPathSteps := (runtime.node node).criticalPathSteps + 1
            }) :=
    .setNode rfl
  refine ⟨counted.trans (.foldl (liftParent_withoutSteps _) _ _), fun ref => ?_⟩
  rw [backwardNode, liftParents_steps, placed.parents]
  by_cases here : ref = node
  · subst here
    rw [if_neg noLoop, if_pos rfl, node_setNode_self]
  · rw [node_setNode_of_ne _ _ here, if_neg here]

/-- A node is determined by its critical path and the rest of it. -/
theorem eq_of_withoutSteps {left right : MutableNode}
    (same : withoutSteps left = withoutSteps right)
    (steps : left.criticalPathSteps = right.criticalPathSteps)
    : left = right := by
  cases left; cases right
  simp only [withoutSteps, MutableNode.mk.injEq] at same
  simp_all

theorem placed_of_withoutSteps {left right : MutableNode}
    (same : withoutSteps left = withoutSteps right)
    : left.placed = right.placed :=
  congrArg Prod.fst (windowed_of_withoutSteps same)

/-- The state of the backward pass: the processed nodes count themselves, the others only
their processed dependents.
-/
structure BackwardTimed (start : PlanRuntime) (init done : List NodeRef) (runtime : PlanRuntime)
    : Prop where
  same : SameGraph withoutSteps start runtime
  outside : ∀ ref, ref ∉ init → ref ∉ done → runtime.node ref = start.node ref
  waiting
    : ∀ ref ∈ init, (runtime.node ref).criticalPathSteps = runtime.dependentSteps ref done
  counted
    : ∀ ref ∈ done, (runtime.node ref).criticalPathSteps = 1 + runtime.dependentSteps ref done

/-- One more backward step: the parents of its node are all still waiting. -/
theorem BackwardTimed.step {start : PlanRuntime} {init done : List NodeRef} {node : NodeRef}
    (timed : BackwardTimed start (init ++ [node]) done runtime)
    (distinct : (init ++ node :: done).Nodup) (ready : ∀ parent ∈ start.parents node, parent ∈ init)
    : BackwardTimed start init (node :: done) (runtime.backwardNode node) := by
  have placed := timed.same.mono fun _ _ => placed_of_withoutSteps
  rw [← placed.parents] at ready
  obtain ⟨-, tail, apart⟩ := List.nodup_append.mp distinct
  obtain ⟨notDone, -⟩ := List.nodup_cons.mp tail
  have notInit : node ∉ init := fun member => apart node member node (by simp) rfl
  have initNotDone {ref : NodeRef} (member : ref ∈ init) : ref ∉ done := fun again =>
    apart ref member ref (List.mem_cons_of_mem _ again) rfl
  have noLoop : node ∉ runtime.parents node := fun loop => notInit (ready node loop)
  obtain ⟨frame, steps⟩ := backwardNode_steps noLoop
  have parents := (frame.mono fun _ _ => placed_of_withoutSteps).parents
  have doneNode {ref : NodeRef} (member : ref ∈ done) : ref ≠ node ∧ ref ∉ runtime.parents node :=
    ⟨fun same => notDone (same ▸ member), fun edge => initNotDone (ready ref edge) member⟩
  have doneSteps (ref : NodeRef)
      : (runtime.backwardNode node).dependentSteps ref done = runtime.dependentSteps ref done := by
    refine dependentSteps_congr (fun dependent _ => parents dependent) fun dependent member => ?_
    rw [steps, if_neg (doneNode member).1, if_neg (doneNode member).2]
  have nodeSteps : (runtime.node node).criticalPathSteps = runtime.dependentSteps node done :=
    timed.waiting node (by simp)
  have allSteps (ref : NodeRef)
      : (runtime.backwardNode node).dependentSteps ref (node :: done)
        = max (if ref ∈ runtime.parents node then (runtime.node node).criticalPathSteps + 1 else 0)
            (runtime.dependentSteps ref done) := by
    rw [dependentSteps, doneSteps, parents, steps node, if_pos rfl]
  refine ⟨timed.same.trans frame, ?_, ?_, ?_⟩
  · intro ref notInInit notCounted
    rw [List.mem_cons, not_or] at notCounted
    have before := timed.outside ref (by simp [notInInit, notCounted.1]) notCounted.2
    refine Eq.trans (eq_of_withoutSteps (frame.node ref) ?_) before
    rw [steps, if_neg notCounted.1, if_neg fun edge => notInInit (ready ref edge)]
  · intro ref member
    have different : ref ≠ node := fun same => notInit (same ▸ member)
    rw [steps, if_neg different, allSteps, timed.waiting ref (List.mem_append_left _ member)]
    split
    · exact Nat.max_comm _ _
    · exact (Nat.zero_max _).symm
  · intro ref member
    rw [steps, allSteps]
    rcases List.mem_cons.mp member with rfl | earlier
    · rw [if_pos rfl, if_neg noLoop, Nat.zero_max, nodeSteps, Nat.add_comm]
    · rw [if_neg (doneNode earlier).1, if_neg (doneNode earlier).2, if_neg (doneNode earlier).2,
        Nat.zero_max]
      exact timed.counted ref earlier

/-- The whole backward pass, by induction on the processed suffix of the order. -/
theorem backward_timed {start : PlanRuntime} (distinct : order.Nodup)
    (first : DependencyFirst start.Parent order)
    (zero : ∀ ref ∈ order, (start.node ref).criticalPathSteps = 0)
    : BackwardTimed start [] order (order.reverse.foldl backwardNode start) := by
  suffices
      suffix : ∀ init done, order = init ++ done
        → BackwardTimed start init done (done.reverse.foldl backwardNode start)
    from suffix [] order rfl
  intro init done parts
  induction done generalizing init with
  | nil =>
      rw [List.append_nil] at parts
      exact ⟨.refl _ start, fun _ _ _ => rfl, fun ref member => zero ref (parts ▸ member),
        fun _ member => by cases member⟩
  | cons node done ih =>
      rw [List.reverse_cons, List.foldl_append, List.foldl_cons, List.foldl_nil]
      refine (ih (init ++ [node]) (by simp [parts])).step (parts ▸ distinct) fun parent edge => ?_
      exact first init node done parts parent edge

-- Recomputed graphs

/-- All recurrences hold at the nodes of an order. -/
structure Timed (runtime : PlanRuntime) (order : List NodeRef) : Prop where
  forward : ∀ ref ∈ order, ForwardTimed runtime ref
  steps
    : ∀ ref ∈ order,
        (runtime.node ref).criticalPathSteps = 1 + runtime.dependentSteps ref order

/-- The recurrences of an order closed under parents only read its nodes. -/
theorem Timed.transport {before after : PlanRuntime} (timed : Timed before order)
    (closed : ∀ ref ∈ order, ∀ parent ∈ before.parents ref, parent ∈ order)
    (resolves
      : ∀ ref ∈ order,
          ∀ dependency ∈ (before.node ref).action.dependsOn,
            after.parent? (before.node ref).identity.proposalID dependency
            = before.parent? (before.node ref).identity.proposalID dependency)
    (nodes : ∀ ref ∈ order, (after.node ref).timed = (before.node ref).timed)
    : Timed after order := by
  have windowed (ref : NodeRef) (member : ref ∈ order)
      : (after.node ref).windowed = (before.node ref).windowed :=
    congrArg Prod.fst (nodes ref member)
  have steps (ref : NodeRef) (member : ref ∈ order)
      : (after.node ref).criticalPathSteps = (before.node ref).criticalPathSteps :=
    congrArg Prod.snd (nodes ref member)
  refine ⟨fun ref member => ?_, fun ref member => ?_⟩
  · exact (timed.forward ref member).transport (resolves ref member) (windowed ref member)
      fun parent edge => windowed parent (closed ref member parent edge)
  · rw [steps ref member, timed.steps ref member]
    congr 1
    refine (dependentSteps_congr (fun dependent listed => ?_) steps).symm
    exact parents_of_resolves (windowed dependent listed) (resolves dependent listed)

/-- Recomputing an ordered graph establishes the recurrences of its nodes and touches no
other node.
-/
theorem recompute_timed {graph : GraphRef} (ordered : (runtime.graph graph).ordered = some order)
    (distinct : order.Nodup) (first : DependencyFirst runtime.Parent order)
    : Timed (runtime.recompute graph) order
      ∧ ∀ ref ∉ order, (runtime.recompute graph).node ref = runtime.node ref := by
  have unfolded
      : runtime.recompute graph
        = order.reverse.foldl backwardNode (order.foldl forwardNode runtime) := by
    rw [recompute, ordered]
  rw [unfolded]
  obtain ⟨outside, inside⟩ := forward_timed distinct first
  have same := (SameGraph.foldl forwardNode_sameGraph order runtime).mono fun _ _ =>
    MutableNode.placed_of_withoutWindows
  have later : DependencyFirst (order.foldl forwardNode runtime).Parent order :=
    same.parent ▸ first
  have timed := backward_timed distinct later fun ref member => (inside ref member).2
  have placed := timed.same.mono fun _ _ => placed_of_withoutSteps
  refine ⟨⟨fun ref member => ?_, timed.counted⟩, fun ref unlisted => ?_⟩
  · exact (inside ref member).1.transport (fun dependency _ => placed.parent? _ dependency)
      (windowed_of_withoutSteps (timed.same.node ref)) fun parent _ =>
        windowed_of_withoutSteps (timed.same.node parent)
  · exact (timed.outside ref (by simp) unlisted).trans (outside ref unlisted)

end PlanRuntime

end SpeculativeAction
