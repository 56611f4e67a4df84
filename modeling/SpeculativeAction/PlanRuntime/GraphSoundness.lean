import SpeculativeAction.PlanRuntime.Survival

/-! Graph soundness of every reachable plan runtime. Accepted updates keep a global
dependency-first order: survivors stay in their old order, new nodes follow in the checked
order of the update.
-/

namespace SpeculativeAction

open SpeculativeAction.Library

namespace PlanRuntime

variable {runtime : PlanRuntime}

namespace Accepted

section

variable {before after : PlanRuntime} {input : CommitInput}
  (accepted : Accepted before input after)
  {actionID id : String} {ref : NodeRef} {planRef : PlanRef} {action : PlanAction}

include accepted

-- Names

/-- Identity, opportunity and record of a current node, kept or new, carry its names. -/
theorem issued_self (current : after.mutable? input.id actionID = some ref)
    : Issued (after.node ref) input.source input.id actionID input.revision := by
  obtain ⟨action, requested, ⟨kept, value⟩ | ⟨-, -, -, value⟩⟩ := accepted.own_cases current
  · obtain ⟨planRef, stored, node⟩ := mutable?_eq_some.mp (kept?_eq_some.mp kept).2
    have was := accepted.coherent.named.issued stored node
    have identity := accepted.kept_identity requested kept
    have source := accepted.checked.sameSource stored
    have fresher := accepted.checked.fresher stored
    obtain ⟨issued, earlier, text⟩ := was.text
    exact {
      text := ⟨issued, by omega, by rw [identity, text, source]⟩
      action := by rw [accepted.kept_action requested kept, accepted.checked.keyed requested]
      source := by rw [identity, was.source, source]
      proposalID := by rw [identity, was.proposalID]
      actionID := by rw [identity, was.actionID]
      opportunity := by
        have same : (after.node ref).opportunity = (before.node ref).opportunity :=
          (congrArg (fun node : MutableNode => node.opportunity) value :)
        rw [same, was.opportunity, identity]
    }
  · obtain rfl := accepted.checked.keyed requested
    have identity := MutableNode.identity_of_withoutWindows value
    exact {
      text := ⟨input.revision, Nat.le_refl _, by rw [identity]; rfl⟩
      action := by rw [MutableNode.action_of_withoutWindows value]; rfl
      source := by rw [identity]; rfl
      proposalID := by rw [identity]; rfl
      actionID := by rw [identity]; rfl
      opportunity := by
        have same : (after.node ref).opportunity
            = (newNode input.id input.source input.revision action input.anchor).opportunity :=
          (congrArg (fun node : MutableNode => node.opportunity) value :)
        rw [same, identity]
        rfl
    }

theorem grown : before.nodeHeap.size ≤ after.nodeHeap.size := by
  rw [accepted.committed.nodeCount]
  exact (accepted.coherent.named.placed input).grown

theorem named : Named after := by
  have before_named := accepted.coherent.named
  refine ⟨?_, ?_, ?_, ?_, ?_⟩
  · intro id planRef stored
    rw [accepted.committed.planCount]
    by_cases own : id = input.id
    · rw [own, accepted.plans_self] at stored
      exact Option.some.inj stored ▸ Nat.lt_succ_self _
    · rw [accepted.plans_other own] at stored
      exact Nat.lt_succ_of_lt (before_named.planRef stored)
  · intro id planRef stored
    by_cases own : id = input.id
    · rw [own, accepted.plans_self] at stored
      rw [← Option.some.inj stored, accepted.committed.nextPlan, own]
      rfl
    · rw [accepted.plans_other own] at stored
      rw [accepted.plan_other stored]
      exact before_named.planID stored
  · intro id planRef stored
    rw [accepted.committed.graphCount]
    by_cases own : id = input.id
    · rw [own, accepted.plans_self] at stored
      rw [← Option.some.inj stored, accepted.committed.nextPlan]
      exact Nat.lt_succ_self _
    · rw [accepted.plans_other own] at stored
      rw [accepted.plan_other stored]
      dsimp only
      split
      · exact Nat.lt_succ_self _
      · exact Nat.lt_succ_of_lt (before_named.graphRef stored)
  · intro id actionID ref current
    by_cases own : id = input.id
    · rw [own] at current
      obtain ⟨-, -, ⟨kept, -⟩ | ⟨-, -, below, -⟩⟩ := accepted.own_cases current
      · exact Nat.lt_of_lt_of_le (before_named.nodeRef (kept?_eq_some.mp kept).2) accepted.grown
      · exact below
    · rw [accepted.mutable?_other own] at current
      exact Nat.lt_of_lt_of_le (before_named.nodeRef current) accepted.grown
  · intro id planRef actionID ref stored node
    have current := mutable?_eq_some.mpr ⟨planRef, stored, node⟩
    by_cases own : id = input.id
    · rw [own] at current stored ⊢
      rw [accepted.plans_self] at stored
      rw [← Option.some.inj stored, accepted.committed.nextPlan]
      exact accepted.issued_self current
    · rw [accepted.mutable?_other own] at current
      rw [accepted.plans_other own] at stored
      rw [accepted.nodes_other stored] at node
      rw [accepted.plan_other stored]
      have was := before_named.issued stored node
      have value := accepted.node_other current own
      have identity := MutableNode.identity_of_withoutWindows value
      have opportunity : (after.node ref).opportunity = (before.node ref).opportunity :=
        (congrArg (fun node : MutableNode => node.opportunity) value :)
      exact {
        text := by rw [identity]; exact was.text
        action := by rw [MutableNode.action_of_withoutWindows value]; exact was.action
        source := by rw [identity]; exact was.source
        proposalID := by rw [identity]; exact was.proposalID
        actionID := by rw [identity]; exact was.actionID
        opportunity := by rw [identity, opportunity]; exact was.opportunity
      }

-- Graphs

/-- The graph of another stored plan after the update: the new one if its graph was joined. -/
theorem graph_other (stored : before.plans.get? id = some planRef)
    : (after.plan planRef).graph
      = if planRef ∈ before.joinedPlans input then before.graphHeap.size
        else (before.plan planRef).graph := by
  rw [accepted.plan_other stored]

theorem graph_self : (after.plan before.planHeap.size).graph = before.graphHeap.size := by
  rw [accepted.committed.nextPlan]
  rfl

/-- A stored plan has the new graph exactly when it is among the joined plans. -/
theorem stored_new_graph (stored : after.plans.get? id = some planRef)
    : (after.plan planRef).graph = before.graphHeap.size
      ↔ planRef ∈ before.joinedPlans input := by
  by_cases own : id = input.id
  · rw [own, accepted.plans_self] at stored
    obtain rfl := Option.some.inj stored
    exact iff_of_true accepted.graph_self (mem_joinedPlans.mpr (.inl rfl))
  · rw [accepted.plans_other own] at stored
    rw [accepted.graph_other stored]
    have older := accepted.coherent.named.graphRef stored
    split
    next joined => exact iff_of_true rfl joined
    next apart => exact iff_of_false (Nat.ne_of_lt older) apart

/-- Every joined plan is stored. -/
theorem joined_stored (joined : planRef ∈ before.joinedPlans input)
    : ∃ id, after.plans.get? id = some planRef := by
  by_cases last : planRef = before.planHeap.size
  · exact ⟨input.id, last ▸ accepted.plans_self⟩
  · obtain ⟨id, other, stored⟩ := accepted.coherent.grouped.joined_stored joined last
    exact ⟨id, (accepted.plans_other other).trans stored⟩

/-- A stored plan outside the joined graphs keeps its graph, whose plans are all outside. -/
theorem apart_graph (stored : after.plans.get? id = some planRef)
    (apart : planRef ∉ before.joinedPlans input)
    : id ≠ input.id
      ∧ before.plans.get? id = some planRef
      ∧ (after.plan planRef).graph = (before.plan planRef).graph
      ∧ ¬ before.Joins input (before.plan planRef).graph
      ∧ after.graph (before.plan planRef).graph = before.graph (before.plan planRef).graph := by
  have other : id ≠ input.id := by
    rintro rfl
    rw [accepted.plans_self] at stored
    exact apart (mem_joinedPlans.mpr (.inl (Option.some.inj stored).symm))
  rw [accepted.plans_other other] at stored
  have same := accepted.graph_other stored
  rw [if_neg apart] at same
  refine ⟨other, stored, same, fun joins => apart ?_, ?_⟩
  · exact (accepted.coherent.grouped.mem_joinedPlans accepted.coherent.named stored other).mpr joins
  · exact accepted.committed.otherGraph _
      (Nat.ne_of_lt (accepted.coherent.named.graphRef stored))

theorem grouped : Grouped after := by
  have before_grouped := accepted.coherent.grouped
  have members {id : String} {planRef : PlanRef} (stored : after.plans.get? id = some planRef)
      : (after.graph (after.plan planRef).graph).plans.Nodup
        ∧ ∀ other,
            other ∈ (after.graph (after.plan planRef).graph).plans
            ↔ other ∈ after.plans.values
              ∧ (after.plan other).graph = (after.plan planRef).graph := by
    by_cases joined : planRef ∈ before.joinedPlans input
    · rw [(accepted.stored_new_graph stored).mpr joined, accepted.committed.nextGraph]
      refine ⟨joinedPlans_nodup before input, fun other => ⟨fun member => ?_, ?_⟩⟩
      · obtain ⟨otherID, otherStored⟩ := accepted.joined_stored member
        exact ⟨OrderedMap.mem_values_iff.mpr ⟨otherID, otherStored⟩,
          (accepted.stored_new_graph otherStored).mpr member⟩
      · rintro ⟨listed, same⟩
        obtain ⟨otherID, otherStored⟩ := OrderedMap.mem_values_iff.mp listed
        exact (accepted.stored_new_graph otherStored).mp same
    · obtain ⟨-, was, same, notJoined, graph⟩ := accepted.apart_graph stored joined
      rw [same, graph]
      refine ⟨before_grouped.distinct was, fun other => ?_⟩
      rw [before_grouped.members was]
      constructor
      · rintro ⟨listed, shares⟩
        obtain ⟨otherID, otherStored⟩ := OrderedMap.mem_values_iff.mp listed
        have different : otherID ≠ input.id := by
          rintro rfl
          exact notJoined (shares ▸ .inl ⟨other, otherStored, rfl⟩)
        have apart : other ∉ before.joinedPlans input := fun member =>
          notJoined (shares ▸ (before_grouped.mem_joinedPlans accepted.coherent.named otherStored
            different).mp member)
        refine ⟨OrderedMap.mem_values_iff.mpr
          ⟨otherID, (accepted.plans_other different).trans otherStored⟩, ?_⟩
        rw [accepted.graph_other otherStored, if_neg apart, shares]
      · rintro ⟨listed, shares⟩
        obtain ⟨otherID, otherStored⟩ := OrderedMap.mem_values_iff.mp listed
        have apart : other ∉ before.joinedPlans input := by
          intro member
          rw [(accepted.stored_new_graph otherStored).mpr member] at shares
          exact Nat.ne_of_lt (accepted.coherent.named.graphRef was) shares.symm
        obtain ⟨-, otherWas, otherSame, -⟩ := accepted.apart_graph otherStored apart
        exact ⟨OrderedMap.mem_values_iff.mpr ⟨otherID, otherWas⟩, otherSame ▸ shares⟩
  exact ⟨fun stored => (members stored).1, fun stored => (members stored).2⟩

-- Dependencies

/-- The record of a current node of the updated plan is the requested one. -/
theorem action_self (current : after.mutable? input.id actionID = some ref)
    : input.actions.get? actionID = some (after.node ref).action := by
  obtain ⟨action, requested, ⟨kept, -⟩ | ⟨-, -, -, value⟩⟩ := accepted.own_cases current
  · rw [accepted.kept_action requested kept, requested]
  · rw [MutableNode.action_of_withoutWindows value, requested]
    rfl

/-- Every requested action has a current node. -/
theorem current_of_requested (requested : input.actions.get? actionID = some action)
    : ∃ ref, after.mutable? input.id actionID = some ref := by
  cases keeps : before.kept? input actionID with
  | some ref => exact ⟨ref, (accepted.node_kept requested keeps).1⟩
  | none =>
      obtain ⟨ref, current, -⟩ := accepted.node_fresh requested keeps
      exact ⟨ref, current⟩

/-- Another plan pinned by the update is joined. -/
theorem joins_pinned (listed : action ∈ input.ordered) {dependency : PlanDependency}
    (declared : dependency ∈ action.dependsOn) {pin : DependencyPin}
    (pinned : dependency.pin = some pin) {target : PlanRef}
    (stored : before.plans.get? pin.proposalID = some target)
    : before.Joins input (before.plan target).graph :=
  .inr ⟨action,
    OrderedMap.mem_values_iff.mpr ⟨action.id, (accepted.checked.listed action).mp listed⟩,
    dependency, declared, pin, target, pinned, stored, rfl⟩

theorem linked : Linked after := by
  have before_named := accepted.coherent.named
  have before_grouped := accepted.coherent.grouped
  refine ⟨?_, ?_⟩
  · intro id planRef actionID ref dependency stored node declared plain
    have current := mutable?_eq_some.mpr ⟨planRef, stored, node⟩
    by_cases own : id = input.id
    · subst own
      have listed := accepted.listed (accepted.action_self current)
      obtain ⟨record, requested⟩ := accepted.requested_parent listed declared plain
      obtain ⟨ancestor, found⟩ := accepted.current_of_requested requested
      obtain ⟨other, otherStored, otherNode⟩ := mutable?_eq_some.mp found
      obtain rfl := Option.some.inj (stored.symm.trans otherStored)
      exact ⟨ancestor, otherNode⟩
    · rw [accepted.mutable?_other own] at current
      rw [accepted.plans_other own] at stored
      rw [accepted.nodes_other stored] at node ⊢
      rw [MutableNode.action_of_withoutWindows (accepted.node_other current own)] at declared
      exact accepted.coherent.linked.own stored node declared plain
  · intro id planRef actionID ref dependency pin stored node declared pinned
    have current := mutable?_eq_some.mpr ⟨planRef, stored, node⟩
    by_cases own : id = input.id
    · subst own
      have listed := accepted.listed (accepted.action_self current)
      obtain ⟨other, ancestor, resolved⟩ :=
        accepted.checked.pinned _ listed dependency declared pin pinned
      rw [parent?_eq_some] at resolved
      simp only [pinned] at resolved
      obtain ⟨target, targetStored, targetNode⟩ := mutable?_eq_some.mp resolved.1
      have joined := (before_grouped.mem_joinedPlans before_named targetStored other).mpr
        (accepted.joins_pinned listed declared pinned targetStored)
      refine ⟨other, target, (accepted.plans_other other).trans targetStored, ?_, ?_⟩
      · rw [accepted.plans_self] at stored
        rw [← Option.some.inj stored, accepted.graph_self, accepted.graph_other targetStored,
          if_pos joined]
      · rw [accepted.plan_other targetStored, ← resolved.2]
        exact (before_named.issued targetStored targetNode).text
    · rw [accepted.mutable?_other own] at current
      rw [accepted.plans_other own] at stored
      rw [accepted.nodes_other stored] at node
      rw [MutableNode.action_of_withoutWindows (accepted.node_other current own)] at declared
      obtain ⟨different, target, targetStored, shares, issued, earlier, text⟩ :=
        accepted.coherent.linked.pinned stored node declared pinned
      refine ⟨different, ?_⟩
      by_cases updated : pin.proposalID = input.id
      · rw [updated] at targetStored
        refine ⟨before.planHeap.size, updated ▸ accepted.plans_self, ?_, issued, ?_, ?_⟩
        · have joined := (before_grouped.mem_joinedPlans before_named stored own).mpr
            (shares ▸ .inl ⟨target, targetStored, rfl⟩)
          rw [accepted.graph_self, accepted.graph_other stored, if_pos joined]
        · rw [accepted.committed.nextPlan]
          exact Nat.le_of_lt (Nat.lt_of_le_of_lt earlier (accepted.checked.fresher targetStored))
        · rw [accepted.committed.nextPlan, text, accepted.checked.sameSource targetStored]
          rfl
      · refine ⟨target, (accepted.plans_other updated).trans targetStored, ?_, ?_⟩
        · rw [accepted.graph_other targetStored, accepted.graph_other stored, shares]
          have together : target ∈ before.joinedPlans input ↔ planRef ∈ before.joinedPlans input := by
            rw [before_grouped.mem_joinedPlans before_named targetStored updated,
              before_grouped.mem_joinedPlans before_named stored own, shares]
          simp only [together]
        · rw [accepted.plan_other targetStored]
          exact ⟨issued, earlier, text⟩

-- The global order

/-- The new nodes of listed actions, in their order. -/
private def freshNodes (before after : PlanRuntime) (id : String) (actionIDs : List String)
    : List NodeRef :=
  actionIDs.filterMap fun actionID =>
    (after.mutable? id actionID).filter (before.nodeHeap.size ≤ ·)

omit accepted in
private theorem mem_freshNodes {actionIDs : List String}
    : ref ∈ freshNodes before after id actionIDs
      ↔ before.nodeHeap.size ≤ ref
        ∧ ∃ actionID ∈ actionIDs, after.mutable? id actionID = some ref := by
  simp only [freshNodes, List.mem_filterMap, Option.filter_eq_some_iff, decide_eq_true_eq]
  grind

omit accepted in
private theorem freshNodes_snoc (id : String) (actionIDs : List String) (last : String)
    : freshNodes before after id (actionIDs ++ [last])
      = freshNodes before after id actionIDs
        ++ ((after.mutable? id last).filter (before.nodeHeap.size ≤ ·)).toList := by
  rw [freshNodes, List.filterMap_append, ← freshNodes, List.filterMap_cons, List.filterMap_nil]
  cases (after.mutable? id last).filter (before.nodeHeap.size ≤ ·) <;> rfl

private theorem freshNodes_nodup {actionIDs : List String} (distinct : actionIDs.Nodup)
    : (freshNodes before after input.id actionIDs).Nodup := by
  refine distinct.filterMap fun left right ref inLeft inRight => ?_
  exact (accepted.named.key_unique (Option.filter_eq_some_iff.mp inLeft).1
    (Option.filter_eq_some_iff.mp inRight).1).2

/-- A resolved parent of a new node is an old current node, or a new node of an own parent. -/
theorem parent_of_fresh (listed : action ∈ input.ordered)
    (current : after.mutable? input.id action.id = some ref) {ancestor : NodeRef}
    (edge : after.Parent ref ancestor)
    : ancestor < before.nodeHeap.size
      ∨ ∃ dependency ∈ action.dependsOn,
          dependency.pin = none
          ∧ after.mutable? input.id dependency.actionID = some ancestor := by
  have requested := (accepted.checked.listed action).mp listed
  have record : (after.node ref).action = action :=
    Option.some.inj ((accepted.action_self current).symm.trans requested)
  obtain ⟨dependency, declared, resolved⟩ := parent_iff.mp edge
  rw [record] at declared
  rw [(accepted.issued_self current).proposalID, parent?_eq_some] at resolved
  cases pinned : dependency.pin with
  | none =>
      simp only [pinned] at resolved
      exact .inr ⟨dependency, declared, pinned, resolved⟩
  | some pin =>
      simp only [pinned] at resolved
      obtain ⟨other, -⟩ := accepted.checked.pinned action listed dependency declared pin pinned
      rw [accepted.mutable?_other other] at resolved
      exact .inl (accepted.coherent.named.nodeRef resolved.1)

/-- The nodes of all plans before and after are those that survive and the new ones. -/
private theorem current_iff {order : List NodeRef} (lists : Lists before before.plans.values order)
    : (∃ id actionID, after.mutable? id actionID = some ref)
      ↔ ref ∈ order.filter (decide <| · ∈ after.allNodes)
        ∨ ref ∈ freshNodes before after input.id (input.ordered.map PlanAction.id) := by
  rw [List.mem_filter, mem_freshNodes, decide_eq_true_eq, mem_allNodes]
  constructor
  · rintro ⟨id, actionID, current⟩
    by_cases old : ref < before.nodeHeap.size
    · obtain ⟨planRef, stored, node⟩ :=
        mutable?_eq_some.mp (accepted.survivor current old).1
      exact .inl ⟨(lists.listed ref).mpr
        ⟨planRef, OrderedMap.mem_values_iff.mpr ⟨id, stored⟩, mem_nodesOf.mpr ⟨actionID, node⟩⟩,
        id, actionID, current⟩
    · have own : id = input.id := by
        by_contra other
        rw [accepted.mutable?_other other] at current
        exact old (accepted.coherent.named.nodeRef current)
      subst own
      have requested := accepted.action_self current
      refine .inr ⟨Nat.not_lt.mp old, actionID, ?_, current⟩
      exact List.mem_map.mpr ⟨_, accepted.listed requested, accepted.checked.keyed requested⟩
  · rintro (⟨-, current⟩ | ⟨-, actionID, -, current⟩)
    · exact current
    · exact ⟨input.id, actionID, current⟩

/-- Survivors keep their old order and new nodes follow in the checked order, by induction
over the new nodes: the parents of each are survivors or earlier new nodes.
-/
theorem globalOrder : ∃ order, Lists after after.plans.values order := by
  obtain ⟨order, lists⟩ := accepted.coherent.globalOrder
  have old {ref : NodeRef} (listed : ref ∈ order) : ref < before.nodeHeap.size := by
    obtain ⟨planRef, stored, node⟩ := (lists.listed ref).mp listed
    obtain ⟨id, stored⟩ := OrderedMap.mem_values_iff.mp stored
    obtain ⟨actionID, node⟩ := mem_nodesOf.mp node
    exact accepted.coherent.named.nodeRef (mutable?_eq_some.mpr ⟨planRef, stored, node⟩)
  have edges (child ancestor : NodeRef) (listed : child ∈ order)
      (current : child ∈ after.allNodes) (edge : after.Parent child ancestor)
      : before.Parent child ancestor := by
    obtain ⟨id, actionID, found⟩ := mem_allNodes.mp current
    exact accepted.parent_of_survivor found (old listed) edge
  have survivors
      : DependencyFirst after.Parent (order.filter (decide <| · ∈ after.allNodes)) := by
    have visible
        : DependencyFirst
            (fun child ancestor => child ∈ after.allNodes ∧ after.Parent child ancestor) order :=
      lists.first.mono fun child ancestor listed edge =>
        edges child ancestor listed edge.1 edge.2
    refine (visible.filter fun child ancestor _ _ edge => ?_).mono fun child ancestor listed edge => ?_
    · exact decide_eq_true (mem_allNodes.mpr edge.2.current)
    · exact ⟨of_decide_eq_true (List.mem_filter.mp listed).2, edge⟩
  refine ⟨order.filter (decide <| · ∈ after.allNodes)
    ++ freshNodes before after input.id (input.ordered.map PlanAction.id), ?_, ?_, ?_⟩
  · refine List.nodup_append.mpr ⟨lists.distinct.filter _,
      accepted.freshNodes_nodup accepted.checked.distinct, ?_⟩
    rintro left inLeft right inRight rfl
    exact absurd (old (List.mem_filter.mp inLeft).1)
      (Nat.not_lt.mpr (mem_freshNodes.mp inRight).1)
  · intro ref
    rw [List.mem_append, ← accepted.current_iff lists]
    simp only [mutable?_eq_some, OrderedMap.mem_values_iff, mem_nodesOf]
    grind
  · have growing (init rest : List PlanAction) (parts : input.ordered = init ++ rest)
        : DependencyFirst after.Parent
            (order.filter (decide <| · ∈ after.allNodes)
              ++ freshNodes before after input.id (init.map PlanAction.id)) := by
      induction init using List.reverseRecOn generalizing rest with
      | nil => simpa [freshNodes] using survivors
      | append_singleton init last ih =>
          have first := ih (last :: rest) (by simp [parts])
          have listed : last ∈ input.ordered := by simp [parts]
          obtain ⟨ref, current⟩ :=
            accepted.current_of_requested ((accepted.checked.listed last).mp listed)
          rw [List.map_append, List.map_singleton, freshNodes_snoc, current]
          by_cases fresh : before.nodeHeap.size ≤ ref
          · rw [Option.filter_some_pos (by simpa using fresh), Option.toList_some,
              ← List.append_assoc, DependencyFirst.snoc_iff]
            refine ⟨first, fun ancestor edge => List.mem_append.mpr ?_⟩
            rcases accepted.parent_of_fresh listed current edge with
              older | ⟨dependency, declared, plain, found⟩
            · obtain ⟨id, actionID, found⟩ := edge.current
              refine ((accepted.current_iff lists).mp ⟨id, actionID, found⟩).imp_right ?_
              exact fun new => absurd older (Nat.not_lt.mpr (mem_freshNodes.mp new).1)
            · have earlier :=
                accepted.checked.first init last rest (by simp [parts]) dependency declared plain
              rcases (accepted.current_iff lists).mp ⟨_, _, found⟩ with survives | new
              · exact .inl survives
              · exact .inr (mem_freshNodes.mpr
                  ⟨(mem_freshNodes.mp new).1, dependency.actionID, earlier, found⟩)
          · rw [Option.filter_some_neg (by simpa using fresh), Option.toList_none,
              List.append_nil]
            exact first
    exact growing input.ordered [] (by simp)

-- The order of each graph

/-- The new graph gets an order of exactly its plans' nodes: its nodes are closed under
parents, and no cycle exists anywhere.
-/
theorem newGraph_ordered
    : ∃ order,
        after.graphOrder (before.joinedPlans input) = some order
        ∧ Lists after (before.joinedPlans input) order := by
  obtain ⟨total, totalLists⟩ := accepted.globalOrder
  let roots := (before.joinedPlans input).flatMap after.nodesOf
  let dependencies : NodeRef → List (Option NodeRef) := fun ref => (after.parents ref).map some
  have edge_iff (child ancestor : NodeRef)
      : Edge dependencies child ancestor ↔ after.Parent child ancestor := by
    simp [Edge, dependencies, Parent]
  have edges : Edge dependencies = after.Parent := funext₂ fun child ancestor =>
    propext (edge_iff child ancestor)
  have closed {child ancestor : NodeRef} (member : child ∈ roots)
      (edge : after.Parent child ancestor)
      : ancestor ∈ roots := by
    obtain ⟨planRef, joined, inPlan⟩ := List.mem_flatMap.mp member
    obtain ⟨id, stored⟩ := accepted.joined_stored joined
    obtain ⟨target, targetID, targetStored, shares, inTarget⟩ :=
      parent_sameGraph accepted.named accepted.linked stored inPlan edge
    rw [(accepted.stored_new_graph stored).mpr joined] at shares
    exact List.mem_flatMap.mpr
      ⟨target, (accepted.stored_new_graph targetStored).mp shares, inTarget⟩
  have bounded : BoundedBy dependencies roots :=
    ⟨fun child member ancestor edge => closed member ((edge_iff child ancestor).mp edge)⟩
  obtain ⟨order, finished⟩ := dependencyOrder_succeeds bounded (List.Subset.refl roots)
    (fun ref _ missing => by simp [dependencies] at missing) (edges ▸ totalLists.acyclic)
  have sound := dependencyOrder_finished finished
  refine ⟨order, ?_, sound.distinct, fun ref => ?_, edges ▸ sound.first⟩
  · rw [graphOrder, finished]
  · rw [sound.listed]
    constructor
    · rintro ⟨root, isRoot, path⟩
      have member : ref ∈ roots := by
        induction path with
        | refl => exact isRoot
        | tail _ edge ih => exact closed ih ((edge_iff _ _).mp edge)
      exact List.mem_flatMap.mp member
    · exact fun member => ⟨ref, List.mem_flatMap.mpr member, .refl⟩

/-- Graphs outside the joined ones keep their order. -/
theorem otherGraph_ordered (stored : after.plans.get? id = some planRef)
    (apart : planRef ∉ before.joinedPlans input)
    : ∃ order,
        (after.graph (after.plan planRef).graph).ordered = some order
        ∧ Lists after (after.graph (after.plan planRef).graph).plans order := by
  obtain ⟨-, was, same, notJoined, graph⟩ := accepted.apart_graph stored apart
  rw [same, graph]
  obtain ⟨order, ordered, lists⟩ := accepted.coherent.ordered was
  have outside {other : PlanRef}
      (member : other ∈ (before.graph (before.plan planRef).graph).plans)
      : ∃ otherID,
          otherID ≠ input.id
          ∧ before.plans.get? otherID = some other
          ∧ after.nodesOf other = before.nodesOf other := by
    obtain ⟨listed, shares⟩ := (accepted.coherent.grouped.members was other).mp member
    obtain ⟨otherID, otherStored⟩ := OrderedMap.mem_values_iff.mp listed
    refine ⟨otherID, ?_, otherStored, ?_⟩
    · rintro rfl
      exact notJoined (shares ▸ .inl ⟨other, otherStored, rfl⟩)
    · rw [nodesOf, nodesOf, accepted.nodes_other otherStored]
  refine ⟨order, ordered, lists.distinct, fun ref => ?_, ?_⟩
  · rw [lists.listed]
    refine exists_congr fun other => and_congr_right fun member => ?_
    obtain ⟨-, -, -, nodes⟩ := outside member
    rw [nodes]
  · refine lists.first.mono fun child ancestor listed edge => ?_
    obtain ⟨other, member, inPlan⟩ := (lists.listed child).mp listed
    obtain ⟨otherID, different, otherStored, -⟩ := outside member
    obtain ⟨actionID, node⟩ := mem_nodesOf.mp inPlan
    have current := mutable?_eq_some.mpr ⟨other, otherStored, node⟩
    exact accepted.parent_of_survivor
      ((accepted.mutable?_other different actionID).trans current)
      (accepted.coherent.named.nodeRef current) edge

/-- Every accepted update keeps the runtime coherent. -/
theorem coherent_after : Coherent after where
  named := accepted.named
  linked := accepted.linked
  grouped := accepted.grouped
  ordered := by
    intro id planRef stored
    by_cases joined : planRef ∈ before.joinedPlans input
    · rw [(accepted.stored_new_graph stored).mpr joined, accepted.committed.nextGraph]
      exact accepted.newGraph_ordered
    · exact accepted.otherGraph_ordered stored joined
  globalOrder := accepted.globalOrder

end

end Accepted

-- Reachable runtimes

/-- Any update, accepted or rejected, keeps coherence. -/
theorem Coherent.apply (coherent : Coherent runtime) (update : HandedUpdate)
    (anchorDecisionSeq : Number)
    : Coherent (runtime.apply update anchorDecisionSeq).1 := by
  rcases coherent.apply_cases update anchorDecisionSeq with
    ⟨reason, same⟩ | ⟨input, checked, -, -, same⟩
  · rw [same]
    exact coherent
  · rw [same]
    exact Accepted.coherent_after ⟨coherent, checked, committed runtime input⟩

/-- Every operation keeps coherence. -/
theorem Coherent.step (coherent : Coherent runtime) (op : Op)
    : Coherent (runtime.step op) := by
  cases isLocal : op.isLocal with
  | true =>
      exact ((step_sameGraph runtime isLocal).mono fun _ _ =>
        MutableNode.placed_of_timed).coherent coherent
  | false =>
      cases op with
      | apply update anchorDecisionSeq => exact coherent.apply update anchorDecisionSeq
      | confirm ref actorAction adoption =>
          exact (confirm_sameGraph runtime ref actorAction adoption).coherent coherent
      | clear => exact coherent_of_empty rfl
      | _ => cases isLocal

/-- Every reachable runtime is coherent, by induction over its operations. -/
theorem afterOps_coherent (ops : List Op) : Coherent (afterOps ops) :=
  runAll_invariant Coherent (coherent_of_empty rfl) (fun _ op coherent => coherent.step op) ops

/-- What updates may rely on in a plan's graph. -/
structure GraphSound (runtime : PlanRuntime) : Prop where
  shared
    : ∀ {id planRef},
        runtime.plans.get? id = some planRef
        → (runtime.graph (runtime.plan planRef).graph).plans.Nodup
          ∧ ∀ other,
              other ∈ (runtime.graph (runtime.plan planRef).graph).plans
              ↔ other ∈ runtime.plans.values
                ∧ (runtime.plan other).graph = (runtime.plan planRef).graph
  ordered
    : ∀ {id planRef},
        runtime.plans.get? id = some planRef
        → ∃ order,
            (runtime.graph (runtime.plan planRef).graph).ordered = some order
            ∧ order.Perm ((runtime.graph (runtime.plan planRef).graph).plans.flatMap runtime.nodesOf)
            ∧ DependencyFirst runtime.Parent order
  parents
    : ∀ {id planRef child ancestor},
        runtime.plans.get? id = some planRef
        → child ∈ runtime.nodesOf planRef
        → runtime.Parent child ancestor
        → ∃ targetID target,
            runtime.plans.get? targetID = some target
            ∧ (runtime.plan target).graph = (runtime.plan planRef).graph
            ∧ ancestor ∈ runtime.nodesOf target
  distinct : runtime.allNodes.Nodup
  acyclic : Acyclic runtime.Parent

/-- A list of stored plans has every node of theirs once. -/
theorem Named.nodes_nodup (named : Named runtime) {plans : List PlanRef} (distinct : plans.Nodup)
    (stored : ∀ planRef ∈ plans, planRef ∈ runtime.plans.values)
    : (plans.flatMap runtime.nodesOf).Nodup := by
  refine List.nodup_flatMap.mpr ⟨fun planRef member => ?_, ?_⟩
  · obtain ⟨id, found⟩ := OrderedMap.mem_values_iff.mp (stored planRef member)
    exact OrderedMap.values_nodup fun left right ref first second =>
      (named.key_unique (mutable?_eq_some.mpr ⟨planRef, found, first⟩)
        (mutable?_eq_some.mpr ⟨planRef, found, second⟩)).2
  · refine distinct.imp_of_mem fun {left right} inLeft inRight different => ?_
    obtain ⟨leftID, leftPlan⟩ := OrderedMap.mem_values_iff.mp (stored left inLeft)
    obtain ⟨rightID, rightPlan⟩ := OrderedMap.mem_values_iff.mp (stored right inRight)
    refine fun ref leftNode rightNode => different ?_
    obtain ⟨_, leftNode⟩ := mem_nodesOf.mp leftNode
    obtain ⟨_, rightNode⟩ := mem_nodesOf.mp rightNode
    obtain ⟨rfl, -⟩ := named.key_unique (mutable?_eq_some.mpr ⟨left, leftPlan, leftNode⟩)
      (mutable?_eq_some.mpr ⟨right, rightPlan, rightNode⟩)
    exact Option.some.inj (leftPlan.symm.trans rightPlan)

/-- Coherence gives graph soundness: an order without duplicates that lists the same nodes
is a permutation of them.
-/
theorem Coherent.graphSound (coherent : Coherent runtime)
    : GraphSound runtime := by
  obtain ⟨total, totalLists⟩ := coherent.globalOrder
  refine {
    shared := fun stored =>
      ⟨coherent.grouped.distinct stored, coherent.grouped.members stored⟩
    ordered := fun {id planRef} stored => ?_
    parents := fun stored member edge => ?_
    distinct := ?_
    acyclic := totalLists.acyclic
  }
  · obtain ⟨order, ordered, lists⟩ := coherent.ordered stored
    refine ⟨order, ordered, ?_, lists.first⟩
    refine (List.perm_ext_iff_of_nodup lists.distinct ?_).mpr fun ref => ?_
    · exact coherent.named.nodes_nodup (coherent.grouped.distinct stored) fun other member =>
        ((coherent.grouped.members stored other).mp member).1
    · rw [lists.listed, List.mem_flatMap]
  · obtain ⟨target, targetID, targetStored, shares, inTarget⟩ :=
      parent_sameGraph coherent.named coherent.linked stored member edge
    exact ⟨targetID, target, targetStored, shares, inTarget⟩
  · refine coherent.named.nodes_nodup ?_ fun _ member => member
    exact OrderedMap.values_nodup fun left right planRef first second =>
      coherent.named.plan_unique first second

/-- Every reachable plan runtime has sound graphs; in particular no update leaves a graph
without an order.
-/
theorem afterOps_graphSound (ops : List Op) : GraphSound (afterOps ops) :=
  (afterOps_coherent ops).graphSound

end PlanRuntime

end SpeculativeAction
