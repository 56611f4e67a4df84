import SpeculativeAction.Library.LongestChain
import SpeculativeAction.PlanRuntime.GraphSoundness
import SpeculativeAction.PlanRuntime.Recompute

/-! Decision windows and critical paths are current in every reachable runtime: whatever
changes a graph, an anchor or a match recomputes the graph it changed.
-/

namespace SpeculativeAction

open SpeculativeAction.Library

namespace PlanRuntime

variable {runtime : PlanRuntime} {ref : NodeRef} {window : Window} {order : List NodeRef}
  {id : String} {planRef : PlanRef}

-- The declarative recurrences

/-- A current node that depends on another. -/
def Dependent (runtime : PlanRuntime) (ref dependent : NodeRef) : Prop :=
  dependent ∈ runtime.allNodes ∧ runtime.Parent dependent ref

/-- The own base of a window in exact arithmetic. -/
def Window.exactOwn (window : Window) (node : MutableNode) : ℕ∞ :=
  match node.opportunity.matchedAction? with
  | some actorAction => actorDecisionSequence actorAction
  | none => node.anchorDecisionSeq + window.due node.action + 1

/-- The recurrence of a window in exact arithmetic. -/
def ExactWindow (runtime : PlanRuntime) (ref : NodeRef) (window : Window) : Prop :=
  IsGreatest
    (insert (window.exactOwn (runtime.node ref))
      {seq | ∃ parent,
        runtime.Parent ref parent
        ∧ seq = window.read (runtime.node parent) + batchAdvance (runtime.node parent)})
    (window.read (runtime.node ref))

/-- The windows and the critical path of a node as its graph, anchors and matches give them. The
sums are rounded, but those of a window below 2^53 are exact.
-/
structure NodeCurrent (runtime : PlanRuntime) (ref : NodeRef) : Prop where
  valid
    : (runtime.node ref).validDependencies = true
      ↔ ∀ dependency ∈ (runtime.node ref).action.dependsOn,
          ∃ parent,
            runtime.parent? (runtime.node ref).identity.proposalID dependency = some parent
            ∧ (runtime.node parent).validDependencies = true
  window
    : ∀ window : Window,
        IsGreatest
          (insert (window.own (runtime.node ref))
            {seq | ∃ parent,
              runtime.Parent ref parent
              ∧ seq
                = addCounts (window.read (runtime.node parent))
                    (batchAdvance (runtime.node parent))})
          (window.read (runtime.node ref))
  exactWindow
    : ∀ window : Window,
        window.read (runtime.node ref) < (2 ^ 53 : ℕ) → ExactWindow runtime ref window
  criticalPath
    : IsGreatest
        {steps | ∃ chain, Continues runtime.Dependent ref chain ∧ steps = 1 + chain.length}
        (runtime.node ref).criticalPathSteps
  earliest : (runtime.node ref).earliestDecisionSeq ≤ (runtime.node ref).expectedDecisionSeq
  expected : (runtime.node ref).expectedDecisionSeq ≤ (runtime.node ref).latestDecisionSeq

/-- Every current node is up to date. -/
def WindowsCurrent (runtime : PlanRuntime) : Prop :=
  ∀ ref ∈ runtime.allNodes, NodeCurrent runtime ref

-- Timed graphs

/-- The order of every graph satisfies the recurrences. -/
def Timely (runtime : PlanRuntime) : Prop :=
  ∀ id planRef order,
    runtime.plans.get? id = some planRef
    → (runtime.graph (runtime.plan planRef).graph).ordered = some order
    → Timed runtime order

/-- A window after its parents is the greatest of its base and the moved windows. -/
private theorem windowAfter_isGreatest
    (timed
      : window.read (runtime.node ref)
        = runtime.windowAfter window (window.own (runtime.node ref)) (runtime.parents ref))
    : IsGreatest
        (insert (window.own (runtime.node ref))
          {seq | ∃ parent,
            runtime.Parent ref parent
            ∧ seq
              = addCounts (window.read (runtime.node parent)) (batchAdvance (runtime.node parent))})
        (window.read (runtime.node ref)) := by
  have greatest := isGreatest_foldl_maxCounts (window.own (runtime.node ref))
    ((runtime.parents ref).map fun parent =>
      addCounts (window.read (runtime.node parent)) (batchAdvance (runtime.node parent)))
  rw [← windowAfter, ← timed] at greatest
  convert greatest using 2
  ext seq
  simp only [Set.mem_ofPred_eq, List.mem_map, Parent, eq_comm]

/-- A window is at most another when their bases are, by induction along the order. -/
private theorem Timed.read_le (timed : Timed runtime order)
    (first : DependencyFirst runtime.Parent order) {small large : Window}
    (own : ∀ node, small.own node ≤ large.own node)
    : ∀ ref ∈ order,
        small.read (runtime.node ref) ≤ large.read (runtime.node ref) := by
  refine first.induction fun ref member parents => ?_
  have below := windowAfter_isGreatest ((timed.forward ref member).window small)
  have above := windowAfter_isGreatest ((timed.forward ref member).window large)
  rcases below.1 with isBase | ⟨parent, edge, value⟩
  · rw [isBase]
    exact (own _).trans (above.2 (Set.mem_insert _ _))
  · rw [value]
    exact (addCounts_mono (parents parent edge) le_rfl).trans
      (above.2 (.inr ⟨parent, edge, rfl⟩))

/-- A window that falls due below 2^53 does so at the exact sum. -/
private theorem dueAfter_eq_of_lt {anchor horizon : ℕ}
    (below : dueAfter anchor horizon < (2 ^ 53 : ℕ))
    : dueAfter anchor horizon = anchor + horizon + 1 := by
  have reached := lt_of_addCounts_lt below
  have rounded := lt_of_addCounts_lt reached
  rw [dueAfter, addCounts_eq_of_lt below, addCounts_eq_of_lt reached, roundCount_eq_of_lt rounded]
  rfl

private theorem Window.own_eq_of_lt {node : MutableNode} (below : window.own node < (2 ^ 53 : ℕ))
    : window.own node = window.exactOwn node := by
  cases matched : node.opportunity.matchedAction? with
  | some actorAction => simp only [Window.own, Window.exactOwn, matched]
  | none =>
      simp only [Window.own, Window.exactOwn, matched] at below ⊢
      exact dueAfter_eq_of_lt below

/-- The greatest of rounded sums is, below 2^53, the greatest of the exact ones. -/
private theorem windowAfter_isGreatest_exact
    (timed
      : window.read (runtime.node ref)
        = runtime.windowAfter window (window.own (runtime.node ref)) (runtime.parents ref))
    (below : window.read (runtime.node ref) < (2 ^ 53 : ℕ))
    : ExactWindow runtime ref window := by
  have greatest := windowAfter_isGreatest timed
  have own := Window.own_eq_of_lt ((greatest.2 (Set.mem_insert _ _)).trans_lt below)
  have sums (parent : NodeRef) (edge : runtime.Parent ref parent)
      : addCounts (window.read (runtime.node parent)) (batchAdvance (runtime.node parent))
        = window.read (runtime.node parent) + batchAdvance (runtime.node parent) :=
    addCounts_eq_of_lt ((greatest.2 (.inr ⟨parent, edge, rfl⟩)).trans_lt below)
  rw [ExactWindow]
  convert greatest using 2
  · exact own.symm
  · ext seq
    refine exists_congr fun parent => and_congr_right fun edge => ?_
    rw [sums parent edge]

private theorem own_earliest_le (node : MutableNode)
    : Window.earliest.own node ≤ Window.expected.own node := by
  unfold Window.own
  split
  · exact le_rfl
  · exact addCounts_mono (addCounts_mono le_rfl (Nat.zero_le _)) le_rfl

private theorem own_expected_le (node : MutableNode)
    : Window.expected.own node ≤ Window.latest.own node := by
  unfold Window.own
  split
  · exact le_rfl
  · exact addCounts_mono (addCounts_mono le_rfl (horizon_le_latestHorizon _)) le_rfl

/-- A dependent of a node of a graph's order is in that order too. -/
theorem Coherent.dependent_mem (coherent : Coherent runtime)
    (stored : runtime.plans.get? id = some planRef)
    (lists : Lists runtime (runtime.graph (runtime.plan planRef).graph).plans order)
    {dependent : NodeRef} (member : ref ∈ order) (edge : runtime.Dependent ref dependent)
    : dependent ∈ order := by
  obtain ⟨otherID, actionID, current⟩ := mem_allNodes.mp edge.1
  obtain ⟨other, otherStored, node⟩ := mutable?_eq_some.mp current
  obtain ⟨target, targetID, targetStored, shares, inTarget⟩ := parent_sameGraph coherent.named
    coherent.linked otherStored (mem_nodesOf.mpr ⟨actionID, node⟩) edge.2
  obtain ⟨holder, holds, inHolder⟩ := (lists.listed ref).mp member
  obtain ⟨holderListed, holderGraph⟩ := (coherent.grouped.members stored holder).mp holds
  obtain ⟨holderID, holderStored⟩ := OrderedMap.mem_values_iff.mp holderListed
  obtain ⟨_, targetNode⟩ := mem_nodesOf.mp inTarget
  obtain ⟨_, holderNode⟩ := mem_nodesOf.mp inHolder
  obtain ⟨rfl, -⟩ := coherent.named.key_unique
    (mutable?_eq_some.mpr ⟨target, targetStored, targetNode⟩)
    (mutable?_eq_some.mpr ⟨holder, holderStored, holderNode⟩)
  obtain rfl := Option.some.inj (targetStored.symm.trans holderStored)
  refine (lists.listed dependent).mpr ⟨other, ?_, mem_nodesOf.mpr ⟨actionID, node⟩⟩
  exact (coherent.grouped.members stored other).mpr
    ⟨OrderedMap.mem_values_iff.mpr ⟨otherID, otherStored⟩, shares.symm.trans holderGraph⟩

/-- Timed orders make every current node up to date. -/
theorem Coherent.windowsCurrent (coherent : Coherent runtime) (timely : Timely runtime)
    : WindowsCurrent runtime := by
  intro ref current
  obtain ⟨id, actionID, found⟩ := mem_allNodes.mp current
  obtain ⟨planRef, stored, node⟩ := mutable?_eq_some.mp found
  obtain ⟨order, ordered, lists⟩ := coherent.ordered stored
  have timed := timely _ _ _ stored ordered
  have own : planRef ∈ (runtime.graph (runtime.plan planRef).graph).plans :=
    (coherent.grouped.members stored planRef).mpr
      ⟨OrderedMap.mem_values_iff.mpr ⟨id, stored⟩, rfl⟩
  have member : ref ∈ order :=
    (lists.listed ref).mpr ⟨planRef, own, mem_nodesOf.mpr ⟨actionID, node⟩⟩
  have inAllNodes {dependent : NodeRef} (listed : dependent ∈ order)
      : dependent ∈ runtime.allNodes := by
    obtain ⟨holder, holds, inHolder⟩ := (lists.listed dependent).mp listed
    exact List.mem_flatMap.mpr
      ⟨holder, ((coherent.grouped.members stored holder).mp holds).1, inHolder⟩
  refine {
    valid := (timed.forward ref member).valid
    window := fun window => windowAfter_isGreatest ((timed.forward ref member).window window)
    exactWindow := fun window =>
      windowAfter_isGreatest_exact ((timed.forward ref member).window window)
    criticalPath := ?_
    earliest := timed.read_le lists.first own_earliest_le ref member
    expected := timed.read_le lists.first own_expected_le ref member
  }
  refine isGreatest_of_counts (· ∈ order) (fun ref => (runtime.node ref).criticalPathSteps)
    (fun ref dependent listed edge => coherent.dependent_mem stored lists listed edge) ?_ ?_ member
  · intro ref dependent listed edge
    have bound := (dependentSteps_spec runtime ref order).1 dependent
      (coherent.dependent_mem stored lists listed edge) edge.2
    have steps := timed.steps ref listed
    omega
  · intro ref listed
    have steps := timed.steps ref listed
    rcases (dependentSteps_spec runtime ref order).2 with none | ⟨dependent, inOrder, edge, value⟩
    · exact .inl (by omega)
    · exact .inr ⟨dependent, ⟨inAllNodes inOrder, edge⟩, by omega⟩

-- Operations keep timed graphs

/-- Frames of all timed data keep the recurrences. -/
theorem SameGraph.timely {before after : PlanRuntime}
    (same : SameGraph MutableNode.timed before after) (coherent : Coherent before)
    (timely : Timely before)
    : Timely after := by
  intro id planRef order stored ordered
  have placed := same.mono fun _ _ => MutableNode.placed_of_timed
  rw [same.plans] at stored
  rw [same.plan_graph, same.graph] at ordered
  obtain ⟨listed, found, lists⟩ := coherent.ordered stored
  obtain rfl := Option.some.inj (found.symm.trans ordered)
  exact (timely _ _ _ stored ordered).transport
    (fun ref member parent edge => lists.first.mem_of_parent member edge)
    (fun ref _ dependency _ => placed.parent? _ dependency) fun ref _ => same.node ref

/-- The order of a graph names no node of another graph. -/
theorem Coherent.order_apart (coherent : Coherent runtime) {other : String} {otherRef : PlanRef}
    (stored : runtime.plans.get? id = some planRef)
    (otherStored : runtime.plans.get? other = some otherRef)
    (different : (runtime.plan otherRef).graph ≠ (runtime.plan planRef).graph)
    {otherOrder : List NodeRef}
    (lists : Lists runtime (runtime.graph (runtime.plan planRef).graph).plans order)
    (otherLists : Lists runtime (runtime.graph (runtime.plan otherRef).graph).plans otherOrder)
    (member : ref ∈ order)
    : ref ∉ otherOrder := by
  intro again
  obtain ⟨holder, holds, inHolder⟩ := (lists.listed ref).mp member
  obtain ⟨otherHolder, otherHolds, inOther⟩ := (otherLists.listed ref).mp again
  obtain ⟨holderListed, holderGraph⟩ := (coherent.grouped.members stored holder).mp holds
  obtain ⟨otherListed, otherGraph⟩ :=
    (coherent.grouped.members otherStored otherHolder).mp otherHolds
  obtain ⟨holderID, holderStored⟩ := OrderedMap.mem_values_iff.mp holderListed
  obtain ⟨otherID, otherHolderStored⟩ := OrderedMap.mem_values_iff.mp otherListed
  obtain ⟨_, holderNode⟩ := mem_nodesOf.mp inHolder
  obtain ⟨_, otherNode⟩ := mem_nodesOf.mp inOther
  obtain ⟨rfl, -⟩ := coherent.named.key_unique
    (mutable?_eq_some.mpr ⟨holder, holderStored, holderNode⟩)
    (mutable?_eq_some.mpr ⟨otherHolder, otherHolderStored, otherNode⟩)
  obtain rfl := Option.some.inj (holderStored.symm.trans otherHolderStored)
  exact different (otherGraph.symm.trans holderGraph)

/-- Recomputing the graph of a plan repairs its recurrences and keeps all others. -/
theorem Coherent.recompute_timely (coherent : Coherent runtime)
    (stored : runtime.plans.get? id = some planRef)
    (others
      : ∀ {other otherRef order},
          runtime.plans.get? other = some otherRef
          → (runtime.plan otherRef).graph ≠ (runtime.plan planRef).graph
          → (runtime.graph (runtime.plan otherRef).graph).ordered = some order
          → Timed runtime order)
    : Timely (runtime.recompute (runtime.plan planRef).graph) := by
  obtain ⟨order, ordered, lists⟩ := coherent.ordered stored
  obtain ⟨timed, untouched⟩ := recompute_timed ordered lists.distinct lists.first
  have same := recompute_sameGraph runtime (runtime.plan planRef).graph
  have placed := same.mono fun _ _ => MutableNode.placed_of_withoutWindows
  intro other otherRef otherOrder otherStored otherOrdered
  rw [same.plans] at otherStored
  rw [same.plan_graph, same.graph] at otherOrdered
  by_cases shares : (runtime.plan otherRef).graph = (runtime.plan planRef).graph
  · rw [shares, ordered] at otherOrdered
    exact Option.some.inj otherOrdered ▸ timed
  · obtain ⟨listed, found, otherLists⟩ := coherent.ordered otherStored
    obtain rfl := Option.some.inj (found.symm.trans otherOrdered)
    refine (others otherStored shares otherOrdered).transport
      (fun ref member parent edge => otherLists.first.mem_of_parent member edge)
      (fun ref _ dependency _ => placed.parent? _ dependency) fun ref member => ?_
    rw [untouched ref (coherent.order_apart otherStored stored (Ne.symm shares) otherLists lists
      member)]

/-- A confirmation settles one opportunity; the only graph it can concern is recomputed. -/
theorem Coherent.confirm_timely (coherent : Coherent runtime) (timely : Timely runtime)
    (ref : NodeRef) (actorAction : ActorActionIdentity) (adoption : PredictionAdoption)
    : Timely (runtime.confirm ref actorAction adoption).1 := by
  rcases runtime.confirm_cases ref actorAction adoption with same | ⟨opportunity, identity, effect⟩
  · rw [same]
    exact timely
  · have placed := setOpportunity_placed identity
    have confirmed := placed.coherent coherent
    have kept {order : List NodeRef} (timed : Timed runtime order)
        (first : DependencyFirst runtime.Parent order) (unlisted : ref ∉ order)
        : Timed (runtime.setOpportunity ref opportunity) order := by
      refine timed.transport (fun ref member parent edge => first.mem_of_parent member edge)
        (fun ref _ dependency _ => placed.parent? _ dependency) fun other member => ?_
      have different : other ≠ ref := fun here => unlisted (here ▸ member)
      have unchanged
          : (runtime.setOpportunity ref opportunity).node other = runtime.node other :=
        node_setNode_of_ne _ _ different
      rw [unchanged]
    rcases effect with ⟨retired, same⟩ | ⟨plan, found, own, same⟩
    · rw [same]
      intro id planRef order stored ordered
      obtain ⟨listed, isOrder, lists⟩ := coherent.ordered stored
      obtain rfl := Option.some.inj (isOrder.symm.trans ordered)
      refine kept (timely _ _ _ stored ordered) lists.first fun member => ?_
      obtain ⟨holder, holds, inHolder⟩ := (lists.listed ref).mp member
      obtain ⟨holderID, holderStored⟩ :=
        OrderedMap.mem_values_iff.mp ((coherent.grouped.members stored holder).mp holds).1
      obtain ⟨actionID, node⟩ := mem_nodesOf.mp inHolder
      have issued := coherent.named.issued holderStored node
      refine retired (runtime.plan holder) ?_ ?_
      · rw [issued.opportunity, issued.proposalID, plan?]
        exact congrArg (Option.map _) holderStored
      · rw [issued.opportunity, issued.actionID, node]
    · rw [same]
      obtain ⟨planRef, stored, rfl⟩ := Option.map_eq_some_iff.mp found
      refine confirmed.recompute_timely stored ?_
      intro other otherRef order otherStored different ordered
      obtain ⟨listed, isOrder, lists⟩ := coherent.ordered otherStored
      obtain rfl := Option.some.inj (isOrder.symm.trans ordered)
      refine kept (timely _ _ _ otherStored ordered) lists.first fun member => ?_
      obtain ⟨ownOrder, ownOrdered, ownLists⟩ := coherent.ordered stored
      refine coherent.order_apart otherStored stored (Ne.symm different) lists ownLists member ?_
      refine (ownLists.listed ref).mpr ⟨planRef, ?_, mem_nodesOf.mpr ⟨_, own⟩⟩
      exact (coherent.grouped.members stored planRef).mpr
        ⟨OrderedMap.mem_values_iff.mpr ⟨_, stored⟩, rfl⟩

/-- A graph the update did not join keeps its recurrences: its nodes and their parents are
untouched, and none of its pins names the updated plan.
-/
theorem Accepted.apart_timed {before after : PlanRuntime} {input : CommitInput}
    (accepted : Accepted before input after) (timely : Timely before) {recomputed : List NodeRef}
    (lists : Lists after (before.joinedPlans input) recomputed)
    (untouched
      : ∀ ref ∉ recomputed,
          after.node ref = (before.placement input).nodeHeap.read ref)
    (stored : after.plans.get? id = some planRef) (apart : planRef ∉ before.joinedPlans input)
    (ordered : (after.graph (after.plan planRef).graph).ordered = some order)
    : Timed after order := by
  have named := accepted.coherent.named
  obtain ⟨-, was, same, notJoined, graph⟩ := accepted.apart_graph stored apart
  rw [same, graph] at ordered
  obtain ⟨listed, isOrder, oldLists⟩ := accepted.coherent.ordered was
  obtain rfl := Option.some.inj (isOrder.symm.trans ordered)
  have outside {ref : NodeRef} (member : ref ∈ listed)
      : ∃ otherID other actionID,
          otherID ≠ input.id
          ∧ before.plans.get? otherID = some other
          ∧ (before.plan other).graph = (before.plan planRef).graph
          ∧ (before.plan other).nodes.get? actionID = some ref := by
    obtain ⟨holder, holds, inHolder⟩ := (oldLists.listed ref).mp member
    obtain ⟨holderListed, shares⟩ := (accepted.coherent.grouped.members was holder).mp holds
    obtain ⟨holderID, holderStored⟩ := OrderedMap.mem_values_iff.mp holderListed
    obtain ⟨actionID, node⟩ := mem_nodesOf.mp inHolder
    refine ⟨holderID, holder, actionID, ?_, holderStored, shares, node⟩
    rintro rfl
    exact notJoined (shares ▸ .inl ⟨holder, holderStored, rfl⟩)
  have unchanged (ref : NodeRef) (member : ref ∈ listed) : after.node ref = before.node ref := by
    obtain ⟨otherID, other, actionID, different, otherStored, shares, node⟩ := outside member
    have current := mutable?_eq_some.mpr ⟨other, otherStored, node⟩
    have notRecomputed : ref ∉ recomputed := by
      intro again
      obtain ⟨holder, joined, inHolder⟩ := (lists.listed ref).mp again
      obtain ⟨holderID, holderStored⟩ := accepted.joined_stored joined
      obtain ⟨_, holderNode⟩ := mem_nodesOf.mp inHolder
      obtain ⟨rfl, -⟩ := accepted.named.key_unique
        (mutable?_eq_some.mpr ⟨holder, holderStored, holderNode⟩)
        ((accepted.mutable?_other different actionID).trans current)
      rw [accepted.plans_other different] at holderStored
      obtain rfl := Option.some.inj (holderStored.symm.trans otherStored)
      exact notJoined (shares ▸ (accepted.coherent.grouped.mem_joinedPlans named otherStored
        different).mp joined)
    rw [untouched ref notRecomputed]
    exact (named.placed input).others (named.nodeRef current) fun keptID _ kept =>
      different (named.key_unique current (kept?_eq_some.mp kept).2).1
  refine (timely _ _ _ was ordered).transport
    (fun ref member parent edge => oldLists.first.mem_of_parent member edge)
    (fun ref member dependency declared => ?_) fun ref member => by rw [unchanged ref member]
  obtain ⟨otherID, other, actionID, different, otherStored, shares, node⟩ := outside member
  rw [(named.issued otherStored node).proposalID]
  cases pinned : dependency.pin with
  | none => simp only [parent?, pinned, accepted.mutable?_other different]
  | some pin =>
      have pinnedOther : pin.proposalID ≠ input.id := by
        obtain ⟨-, target, targetStored, pinShares, -⟩ :=
          accepted.coherent.linked.pinned otherStored node declared pinned
        rintro updated
        rw [updated] at targetStored
        exact notJoined (shares ▸ pinShares ▸ .inl ⟨target, targetStored, rfl⟩)
      simp only [parent?, pinned, accepted.mutable?_other pinnedOther]
      cases found : before.mutable? pin.proposalID dependency.actionID with
      | none => rfl
      | some ancestor =>
          have identity := MutableNode.identity_of_withoutWindows
            (accepted.node_other found pinnedOther)
          simp only [Option.filter_some, identity]

/-- Committing a checked input keeps every graph timed. -/
theorem Coherent.commit_timely (coherent : Coherent runtime) (timely : Timely runtime)
    {input : CommitInput} (checked : Checked runtime input)
    : Timely (runtime.commit input).1 := by
  have accepted : Accepted runtime input (runtime.commit input).1 :=
    ⟨coherent, checked, committed runtime input⟩
  obtain ⟨recomputed, ordered, lists⟩ := accepted.newGraph_ordered
  have same := recompute_sameGraph (runtime.linkGraph input) runtime.graphHeap.size
  have placed := same.mono fun _ _ => MutableNode.placed_of_withoutWindows
  have linkedOrder
      : ((runtime.linkGraph input).graph runtime.graphHeap.size).ordered = some recomputed := by
    rw [← same.graph]
    exact (congrArg PlanGraph.ordered accepted.committed.nextGraph).trans ordered
  have linkedFirst : DependencyFirst (runtime.linkGraph input).Parent recomputed := by
    rw [← placed.parent]
    exact lists.first
  obtain ⟨timed, untouched⟩ := recompute_timed linkedOrder lists.distinct linkedFirst
  intro id planRef order stored isOrder
  by_cases joined : planRef ∈ runtime.joinedPlans input
  · rw [(accepted.stored_new_graph stored).mpr joined, accepted.committed.nextGraph] at isOrder
    exact Option.some.inj (ordered.symm.trans isOrder) ▸ timed
  · exact accepted.apart_timed timely lists untouched stored joined isOrder

-- Reachable runtimes

/-- Every operation keeps every graph timed. -/
theorem Coherent.step_timely (coherent : Coherent runtime) (timely : Timely runtime) (op : Op)
    : Timely (runtime.step op) := by
  cases isLocal : op.isLocal with
  | true => exact (step_sameGraph runtime isLocal).timely coherent timely
  | false =>
      cases op with
      | apply update anchorDecisionSeq =>
          rcases coherent.apply_cases update anchorDecisionSeq with
            ⟨reason, same⟩ | ⟨input, checked, -, -, same⟩
          · simpa only [PlanRuntime.step, same] using timely
          · simpa only [PlanRuntime.step, same] using coherent.commit_timely timely checked
      | confirm ref actorAction adoption =>
          exact coherent.confirm_timely timely ref actorAction adoption
      | clear =>
          intro id planRef order stored
          simp [PlanRuntime.step, clear] at stored
      | _ => cases isLocal

/-- Every graph of a reachable runtime is timed, by induction over its operations. -/
theorem afterOps_timely (ops : List Op) : Timely (afterOps ops) := by
  have base : Coherent create ∧ Timely create := by
    refine ⟨coherent_of_empty rfl, ?_⟩
    intro id planRef order stored
    simp [create] at stored
  exact (runAll_invariant (fun runtime => Coherent runtime ∧ Timely runtime) base
    (fun _ op both => ⟨both.1.step op, both.1.step_timely both.2 op⟩) ops).2

/-- Windows and critical paths are never stale in a reachable runtime. -/
theorem afterOps_windowsCurrent (ops : List Op) : WindowsCurrent (afterOps ops) :=
  (afterOps_coherent ops).windowsCurrent (afterOps_timely ops)

/-- A prediction 2^53 decisions ahead with a dependent. -/
def farHorizon : List Op :=
  let zero : Number := .finite (Rat.ofInt (Int.ofNat 0))
  let far : Number := .finite (Rat.ofInt (Int.ofNat (2 ^ 53)))
  let parent : OfferedAction :=
    {id := "parent", type := "tool_call", tool := "read", input := .null, horizon := some far}
  let child : OfferedAction :=
    {
      id := "child"
      type := "tool_call"
      tool := "read"
      input := .null
      dependsOn := [{actionID := "parent"}]
    }
  [.apply (.offered (.proposal "plan" "source" zero [parent, child] false)) zero]

/-- From 2^53 on a dependent is due no later than its parent. -/
theorem farHorizon_rounded
    : ¬ ∀ ref ∈ (afterOps farHorizon).allNodes, ∀ window,
        ExactWindow (afterOps farHorizon) ref window := by
  intro recurs
  have listed : (afterOps farHorizon).allNodes = [0, 1] := by decide +kernel
  have edge : (afterOps farHorizon).Parent 1 0 := by
    have parents : (afterOps farHorizon).parents 1 = [0] := by decide +kernel
    simp [Parent, parents]
  have due : Window.expected.read ((afterOps farHorizon).node 0) = (2 ^ 53 : ℕ) := by
    decide +kernel
  have same : Window.expected.read ((afterOps farHorizon).node 1) = (2 ^ 53 : ℕ) := by
    decide +kernel
  have advance : batchAdvance ((afterOps farHorizon).node 0) = 1 := by decide +kernel
  have later := (recurs 1 (by simp [listed]) .expected).2 (.inr ⟨0, edge, rfl⟩)
  rw [due, same, advance] at later
  exact absurd (ENat.natCast_le_natCast.mp later) (by decide)

end PlanRuntime

end SpeculativeAction
