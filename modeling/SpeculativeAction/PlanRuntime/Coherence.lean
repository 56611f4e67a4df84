import SpeculativeAction.PlanRuntime.Frames

/-! What holds of a plan runtime between updates: objects stand under their own names,
dependencies lead into the same graph, and every graph has a dependency-first order.
-/

namespace SpeculativeAction

open SpeculativeAction.Library

namespace PlanRuntime

variable {runtime : PlanRuntime} {ref : NodeRef}

-- Parents and orders

/-- `ancestor` is a resolved parent of `child`. -/
def Parent (runtime : PlanRuntime) (child ancestor : NodeRef) : Prop :=
  ancestor ∈ runtime.parents child

theorem mutable?_eq_some {id actionID : String}
    : runtime.mutable? id actionID = some ref
      ↔ ∃ planRef,
          runtime.plans.get? id = some planRef
          ∧ (runtime.plan planRef).nodes.get? actionID = some ref := by
  simp only [mutable?, plan?, Option.bind_eq_some_iff, Option.map_eq_some_iff,
    exists_exists_and_eq_and]

theorem mem_nodesOf {planRef : PlanRef}
    : ref ∈ runtime.nodesOf planRef
      ↔ ∃ actionID, (runtime.plan planRef).nodes.get? actionID = some ref :=
  OrderedMap.mem_values_iff

theorem mem_allNodes
    : ref ∈ runtime.allNodes ↔ ∃ id actionID, runtime.mutable? id actionID = some ref := by
  simp only [allNodes, List.mem_flatMap, OrderedMap.mem_values_iff, mem_nodesOf,
    mutable?_eq_some]
  grind

/-- A dependency resolves to a current node under its own action id, with the pinned
identity where it has one.
-/
theorem parent?_eq_some {id : String} {dependency : PlanDependency}
    : runtime.parent? id dependency = some ref
      ↔ match dependency.pin with
        | none => runtime.mutable? id dependency.actionID = some ref
        | some pin =>
            runtime.mutable? pin.proposalID dependency.actionID = some ref
            ∧ (runtime.node ref).identity.id = pin.identity := by
  cases pinned : dependency.pin <;> simp [parent?, pinned, Option.filter_eq_some_iff]

theorem parent_iff {child ancestor : NodeRef}
    : runtime.Parent child ancestor
      ↔ ∃ dependency ∈ (runtime.node child).action.dependsOn,
          runtime.parent? (runtime.node child).identity.proposalID dependency = some ancestor := by
  simp [Parent, parents, List.mem_filterMap]

/-- Every resolved parent is a current node of some plan. -/
theorem Parent.current {child ancestor : NodeRef} (edge : runtime.Parent child ancestor)
    : ∃ id actionID, runtime.mutable? id actionID = some ancestor := by
  obtain ⟨dependency, -, resolved⟩ := parent_iff.mp edge
  rw [parent?_eq_some] at resolved
  cases pinned : dependency.pin with
  | none => exact ⟨_, _, by simpa [pinned] using resolved⟩
  | some pin =>
      simp only [pinned] at resolved
      exact ⟨_, _, resolved.1⟩

/-- The order lists the nodes of the plans once each, parents first. -/
structure Lists (runtime : PlanRuntime) (plans : List PlanRef) (order : List NodeRef) : Prop where
  distinct : order.Nodup
  listed : ∀ ref, ref ∈ order ↔ ∃ planRef ∈ plans, ref ∈ runtime.nodesOf planRef
  first : DependencyFirst runtime.Parent order

-- Coherence

/-- The identity of a node as its plan issued it, in some revision up to the current one. -/
structure Issued (node : MutableNode) (source id actionID : String) (revision : ℕ) : Prop where
  text : ∃ issued ≤ revision, node.identity.id = identityText source id actionID issued
  action : node.action.id = actionID
  source : node.identity.source = source
  proposalID : node.identity.proposalID = id
  actionID : node.identity.actionID = actionID
  opportunity : node.opportunity.identity = node.identity

/-- Plans, graphs and nodes exist and stand under their own names. -/
structure Named (runtime : PlanRuntime) : Prop where
  planRef : ∀ {id planRef}, runtime.plans.get? id = some planRef → planRef < runtime.planHeap.size
  planID : ∀ {id planRef}, runtime.plans.get? id = some planRef → (runtime.plan planRef).id = id
  graphRef
    : ∀ {id planRef},
        runtime.plans.get? id = some planRef
        → (runtime.plan planRef).graph < runtime.graphHeap.size
  nodeRef
    : ∀ {id actionID ref},
        runtime.mutable? id actionID = some ref → ref < runtime.nodeHeap.size
  issued
    : ∀ {id planRef actionID ref},
        runtime.plans.get? id = some planRef
        → (runtime.plan planRef).nodes.get? actionID = some ref
        → Issued (runtime.node ref) (runtime.plan planRef).source id actionID
            (runtime.plan planRef).revision

/-- Same-plan dependencies name stored actions. Pinned ones name another plan of the same
graph and an identity that plan issued, which may have been replaced since.
-/
structure Linked (runtime : PlanRuntime) : Prop where
  own
    : ∀ {id planRef actionID ref dependency},
        runtime.plans.get? id = some planRef
        → (runtime.plan planRef).nodes.get? actionID = some ref
        → dependency ∈ (runtime.node ref).action.dependsOn
        → dependency.pin = none
        → ∃ ancestor, (runtime.plan planRef).nodes.get? dependency.actionID = some ancestor
  pinned
    : ∀ {id planRef actionID ref dependency pin},
        runtime.plans.get? id = some planRef
        → (runtime.plan planRef).nodes.get? actionID = some ref
        → dependency ∈ (runtime.node ref).action.dependsOn
        → dependency.pin = some pin
        → pin.proposalID ≠ id
          ∧ ∃ target,
              runtime.plans.get? pin.proposalID = some target
              ∧ (runtime.plan target).graph = (runtime.plan planRef).graph
              ∧ ∃ issued ≤ (runtime.plan target).revision,
                  pin.identity
                  = identityText (runtime.plan target).source pin.proposalID dependency.actionID issued

/-- The graph of a plan lists exactly the plans that have it. -/
structure Grouped (runtime : PlanRuntime) : Prop where
  distinct
    : ∀ {id planRef},
        runtime.plans.get? id = some planRef
        → (runtime.graph (runtime.plan planRef).graph).plans.Nodup
  members
    : ∀ {id planRef},
        runtime.plans.get? id = some planRef
        → ∀ other,
            other ∈ (runtime.graph (runtime.plan planRef).graph).plans
            ↔ other ∈ runtime.plans.values
              ∧ (runtime.plan other).graph = (runtime.plan planRef).graph

/-- The invariant of updates. The global order is the witness that edges across plans
never close a cycle, although no update looks for one.
-/
structure Coherent (runtime : PlanRuntime) : Prop where
  named : Named runtime
  linked : Linked runtime
  grouped : Grouped runtime
  ordered
    : ∀ {id planRef},
        runtime.plans.get? id = some planRef
        → ∃ order,
            (runtime.graph (runtime.plan planRef).graph).ordered = some order
            ∧ Lists runtime (runtime.graph (runtime.plan planRef).graph).plans order
  globalOrder : ∃ order, Lists runtime runtime.plans.values order

-- First consequences

section

variable {runtime : PlanRuntime}

/-- A node is current under one plan and one action only. -/
theorem Named.key_unique (named : Named runtime) {id other actionID otherActionID : String}
    {ref : NodeRef} (left : runtime.mutable? id actionID = some ref)
    (right : runtime.mutable? other otherActionID = some ref)
    : id = other ∧ actionID = otherActionID := by
  obtain ⟨_, leftPlan, leftNode⟩ := mutable?_eq_some.mp left
  obtain ⟨_, rightPlan, rightNode⟩ := mutable?_eq_some.mp right
  have leftIssued := named.issued leftPlan leftNode
  have rightIssued := named.issued rightPlan rightNode
  exact ⟨leftIssued.proposalID.symm.trans rightIssued.proposalID,
    leftIssued.actionID.symm.trans rightIssued.actionID⟩

/-- A plan object is stored under one id only. -/
theorem Named.plan_unique (named : Named runtime) {id other : String} {planRef : PlanRef}
    (left : runtime.plans.get? id = some planRef) (right : runtime.plans.get? other = some planRef)
    : id = other :=
  (named.planID left).symm.trans (named.planID right)

/-- Every resolved parent of a current node belongs to a plan of the same graph: its own
plan for plain dependencies, the pinned one otherwise.
-/
theorem parent_sameGraph (named : Named runtime) (linked : Linked runtime) {id : String}
    {planRef : PlanRef} {child ancestor : NodeRef} (stored : runtime.plans.get? id = some planRef)
    (member : child ∈ runtime.nodesOf planRef) (edge : runtime.Parent child ancestor)
    : ∃ target targetID,
        runtime.plans.get? targetID = some target
        ∧ (runtime.plan target).graph = (runtime.plan planRef).graph
        ∧ ancestor ∈ runtime.nodesOf target := by
  obtain ⟨actionID, found⟩ := mem_nodesOf.mp member
  have issued := named.issued stored found
  obtain ⟨dependency, declared, resolved⟩ := parent_iff.mp edge
  rw [issued.proposalID, parent?_eq_some] at resolved
  cases pinned : dependency.pin with
  | none =>
      simp only [pinned] at resolved
      obtain ⟨own, ownStored, ownNode⟩ := mutable?_eq_some.mp resolved
      obtain rfl := Option.some.inj (stored.symm.trans ownStored)
      exact ⟨planRef, id, stored, rfl, mem_nodesOf.mpr ⟨_, ownNode⟩⟩
  | some pin =>
      simp only [pinned] at resolved
      obtain ⟨other, otherStored, otherNode⟩ := mutable?_eq_some.mp resolved.1
      obtain ⟨-, target, targetStored, same, -⟩ :=
        linked.pinned stored found declared pinned
      obtain rfl := Option.some.inj (otherStored.symm.trans targetStored)
      exact ⟨other, pin.proposalID, otherStored, same, mem_nodesOf.mpr ⟨_, otherNode⟩⟩

/-- A dependency-first order of all nodes rules out cycles: every parent is listed. -/
theorem Lists.acyclic {order : List NodeRef} (lists : Lists runtime runtime.plans.values order)
    : Acyclic runtime.Parent := by
  refine lists.first.acyclic lists.distinct fun child ancestor edge => ?_
  obtain ⟨id, actionID, found⟩ := edge.current
  obtain ⟨planRef, stored, node⟩ := mutable?_eq_some.mp found
  exact (lists.listed ancestor).mpr
    ⟨planRef, OrderedMap.mem_values_iff.mpr ⟨id, stored⟩, mem_nodesOf.mpr ⟨actionID, node⟩⟩

end

-- Frames keep coherence

section

variable {before after : PlanRuntime} (same : SameGraph MutableNode.placed before after)

include same

theorem SameGraph.parent : after.Parent = before.Parent := by
  funext child ancestor
  rw [Parent, same.parents, ← Parent]

theorem SameGraph.lists {plans : List PlanRef} {order : List NodeRef}
    (lists : Lists before plans order)
    : Lists after plans order :=
  {
    distinct := lists.distinct
    listed := fun ref => by simp only [lists.listed, same.nodesOf]
    first := same.parent ▸ lists.first
  }

theorem SameGraph.issued {ref : NodeRef} {source id actionID : String} {revision : ℕ}
    (issued : Issued (before.node ref) source id actionID revision)
    : Issued (after.node ref) source id actionID revision := by
  obtain ⟨identity, action, opportunity⟩ : (after.node ref).identity = (before.node ref).identity
      ∧ (after.node ref).action = (before.node ref).action
      ∧ (after.node ref).opportunity.identity = (before.node ref).opportunity.identity := by
    simpa [MutableNode.placed] using same.node ref
  exact {
    source := identity ▸ issued.source
    proposalID := identity ▸ issued.proposalID
    actionID := identity ▸ issued.actionID
    text := identity ▸ issued.text
    action := action ▸ issued.action
    opportunity := by rw [opportunity, identity]; exact issued.opportunity
  }

theorem SameGraph.named (named : Named before) : Named after := by
  have source (ref : PlanRef) : (after.plan ref).source = (before.plan ref).source := by
    rw [same.plan ref]
  have revision (ref : PlanRef) : (after.plan ref).revision = (before.plan ref).revision := by
    rw [same.plan ref]
  refine ⟨?_, ?_, ?_, ?_, ?_⟩
  · intro id planRef stored
    rw [same.plans] at stored
    rw [same.planCount]
    exact named.planRef stored
  · intro id planRef stored
    rw [same.plans] at stored
    rw [same.plan planRef]
    exact named.planID stored
  · intro id planRef stored
    rw [same.plans] at stored
    rw [same.plan_graph, same.graphHeap]
    exact named.graphRef stored
  · intro id actionID ref found
    rw [same.mutable?] at found
    rw [same.nodeCount]
    exact named.nodeRef found
  · intro id planRef actionID ref stored found
    rw [same.plans] at stored
    rw [same.plan_nodes] at found
    rw [source, revision]
    exact same.issued (named.issued stored found)

theorem SameGraph.linked (linked : Linked before) : Linked after := by
  refine ⟨?_, ?_⟩
  · intro id planRef actionID ref dependency stored found declared plain
    rw [same.plans] at stored
    rw [same.plan_nodes] at found ⊢
    rw [same.action] at declared
    exact linked.own stored found declared plain
  · intro id planRef actionID ref dependency pin stored found declared pinned
    rw [same.plans] at stored
    rw [same.plan_nodes] at found
    rw [same.action] at declared
    obtain ⟨other, target, targetStored, grouped, issued⟩ :=
      linked.pinned stored found declared pinned
    refine ⟨other, target, by rwa [same.plans], ?_, ?_⟩
    · rw [same.plan_graph, same.plan_graph, grouped]
    · rw [same.plan target]
      exact issued

theorem SameGraph.grouped (grouped : Grouped before) : Grouped after := by
  refine ⟨?_, ?_⟩
  · intro id planRef stored
    rw [same.plans] at stored
    rw [same.plan_graph, same.graph]
    exact grouped.distinct stored
  · intro id planRef stored other
    rw [same.plans] at stored
    rw [same.plan_graph, same.plan_graph, same.graph, same.plans]
    exact grouped.members stored other

/-- Coherence depends only on plans, graphs and the places of nodes. -/
theorem SameGraph.coherent (coherent : Coherent before) : Coherent after where
  named := same.named coherent.named
  linked := same.linked coherent.linked
  grouped := same.grouped coherent.grouped
  ordered := by
    intro id planRef stored
    rw [same.plans] at stored
    rw [same.plan_graph, same.graph]
    obtain ⟨order, found, lists⟩ := coherent.ordered stored
    exact ⟨order, found, same.lists lists⟩
  globalOrder := by
    obtain ⟨order, lists⟩ := coherent.globalOrder
    exact ⟨order, by rw [same.plans]; exact same.lists lists⟩

end

/-- A runtime without plans is coherent. -/
theorem coherent_of_empty (none : runtime.plans = .empty)
    : Coherent runtime := by
  have absent (id : String) : runtime.plans.get? id = Option.none := by
    rw [none, OrderedMap.get?_empty]
  have unstored {id : String} {planRef : PlanRef} (stored : runtime.plans.get? id = some planRef)
      : False := by
    simp [absent] at stored
  refine ⟨⟨?_, ?_, ?_, ?_, ?_⟩, ⟨?_, ?_⟩, ⟨?_, ?_⟩, ?_, ⟨[], .nil, ?_, .nil⟩⟩
  · exact fun stored => (unstored stored).elim
  · exact fun stored => (unstored stored).elim
  · exact fun stored => (unstored stored).elim
  · intro id actionID ref found
    obtain ⟨planRef, stored, -⟩ := mutable?_eq_some.mp found
    exact (unstored stored).elim
  · exact fun stored => (unstored stored).elim
  · exact fun stored => (unstored stored).elim
  · exact fun stored => (unstored stored).elim
  · exact fun stored => (unstored stored).elim
  · exact fun stored => (unstored stored).elim
  · exact fun stored => (unstored stored).elim
  · simp [none, OrderedMap.values, OrderedMap.empty]

end PlanRuntime

end SpeculativeAction
