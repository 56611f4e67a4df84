import SpeculativeAction.PlanRuntime.Operations

/-! What operations leave alone: the plans, their graphs and chosen data of every node. -/

namespace SpeculativeAction

open SpeculativeAction.Library

-- Chosen data of a node

namespace MutableNode

/-- What places a node in its graph. -/
def placed (node : MutableNode) : PlanActionIdentity × PlanAction × PredictionIdentity :=
  (node.identity, node.action, node.opportunity.identity)

/-- A node without its cached windows and critical path. -/
def withoutWindows (node : MutableNode) : MutableNode :=
  {
    node with
    earliestDecisionSeq := 0
    expectedDecisionSeq := 0
    latestDecisionSeq := 0
    criticalPathSteps := 0
    validDependencies := true
  }

/-- The windows of a node with what they are computed from. -/
def windowed (node : MutableNode)
    : (PlanActionIdentity × PlanAction × PredictionIdentity)
      × ℕ × Option ActorActionIdentity × ℕ∞ × ℕ∞ × ℕ∞ × Bool :=
  (node.placed, node.anchorDecisionSeq, node.opportunity.matchedAction?,
    node.earliestDecisionSeq, node.expectedDecisionSeq, node.latestDecisionSeq,
    node.validDependencies)

/-- A node without its execution data: its windows and its critical path. -/
def timed (node : MutableNode)
    : ((PlanActionIdentity × PlanAction × PredictionIdentity)
      × ℕ × Option ActorActionIdentity × ℕ∞ × ℕ∞ × ℕ∞ × Bool) × ℕ :=
  (node.windowed, node.criticalPathSteps)

/-- The timed data of a node with its whole opportunity. -/
def timedOpportunity (node : MutableNode)
    : (((PlanActionIdentity × PlanAction × PredictionIdentity)
      × ℕ × Option ActorActionIdentity × ℕ∞ × ℕ∞ × ℕ∞ × Bool) × ℕ) × PredictionOpportunity :=
  (node.timed, node.opportunity)

/-- The place of a node does not depend on its windows. -/
theorem placed_of_withoutWindows {left right : MutableNode}
    (same : left.withoutWindows = right.withoutWindows)
    : left.placed = right.placed := by
  have placedOf (node : MutableNode) : node.placed = node.withoutWindows.placed := rfl
  rw [placedOf left, same, ← placedOf]

theorem identity_of_withoutWindows {left right : MutableNode}
    (same : left.withoutWindows = right.withoutWindows)
    : left.identity = right.identity :=
  congrArg Prod.fst (placed_of_withoutWindows same)

theorem action_of_withoutWindows {left right : MutableNode}
    (same : left.withoutWindows = right.withoutWindows)
    : left.action = right.action :=
  congrArg (fun placed => placed.2.1) (placed_of_withoutWindows same)

/-- The place of a node is among its timed data. -/
theorem placed_of_timed {left right : MutableNode} (same : left.timed = right.timed)
    : left.placed = right.placed :=
  congrArg (fun timed => timed.1.1) same

end MutableNode

namespace PlanRuntime

variable {opportunity : PredictionOpportunity}

-- Frames

/-- Two runtimes have the same plans and graphs, and the `kept` data of all nodes agree. -/
structure SameGraph {κ : Type*} (kept : MutableNode → κ) (before after : PlanRuntime) : Prop where
  plans : after.plans = before.plans
  graphHeap : after.graphHeap = before.graphHeap
  planCount : after.planHeap.size = before.planHeap.size
  nodeCount : after.nodeHeap.size = before.nodeHeap.size
  plan
    : ∀ ref,
        after.plan ref = { before.plan ref with nextRevision := (after.plan ref).nextRevision }
  node : ∀ ref, kept (after.node ref) = kept (before.node ref)

namespace SameGraph

variable {κ μ : Type*} {kept : MutableNode → κ} {before middle after : PlanRuntime}

theorem refl (kept : MutableNode → κ) (runtime : PlanRuntime) : SameGraph kept runtime runtime :=
  ⟨rfl, rfl, rfl, rfl, fun _ => rfl, fun _ => rfl⟩

theorem trans (first : SameGraph kept before middle) (second : SameGraph kept middle after)
    : SameGraph kept before after :=
  {
    plans := second.plans.trans first.plans
    graphHeap := second.graphHeap.trans first.graphHeap
    planCount := second.planCount.trans first.planCount
    nodeCount := second.nodeCount.trans first.nodeCount
    plan := fun ref => by
      rw [second.plan ref, first.plan ref]
    node := fun ref => (second.node ref).trans (first.node ref)
  }

/-- A frame for some data is one for any data they determine. -/
theorem mono {fewer : MutableNode → μ} (same : SameGraph kept before after)
    (determined : ∀ left right, kept left = kept right → fewer left = fewer right)
    : SameGraph fewer before after :=
  { same with node := fun ref => determined _ _ (same.node ref) }

/-- Writing one node frames all data the new value agrees on. -/
theorem setNode {runtime : PlanRuntime} {ref : NodeRef} {node : MutableNode}
    (agrees : kept node = kept (runtime.node ref))
    : SameGraph kept runtime (runtime.setNode ref node) where
  plans := rfl
  graphHeap := rfl
  planCount := rfl
  nodeCount := rfl
  plan := fun _ => rfl
  node := fun other => by
    change kept ((runtime.nodeHeap.write ref node).read other) = kept (runtime.nodeHeap.read other)
    rw [Heap.read_write]
    split
    next here => rw [here]; exact agrees
    next => rfl

/-- Folding framed changes is framed, by induction over the list. -/
theorem foldl {ι : Type*} {change : PlanRuntime → ι → PlanRuntime}
    (framed : ∀ runtime label, SameGraph kept runtime (change runtime label)) (labels : List ι)
    (runtime : PlanRuntime)
    : SameGraph kept runtime (labels.foldl change runtime) := by
  induction labels generalizing runtime with
  | nil => exact refl kept runtime
  | cons label rest ih => exact (framed runtime label).trans (ih _)

section

variable (same : SameGraph kept before after)

include same

theorem plan_nodes (ref : PlanRef) : (after.plan ref).nodes = (before.plan ref).nodes := by
  rw [same.plan ref]

theorem plan_graph (ref : PlanRef) : (after.plan ref).graph = (before.plan ref).graph := by
  rw [same.plan ref]

theorem nodesOf (ref : PlanRef) : after.nodesOf ref = before.nodesOf ref := by
  rw [PlanRuntime.nodesOf, same.plan_nodes ref, ← PlanRuntime.nodesOf]

theorem graph (ref : GraphRef) : after.graph ref = before.graph ref :=
  congrArg (fun heap => heap.read ref) same.graphHeap

theorem mutable? (proposalID actionID : String)
    : after.mutable? proposalID actionID = before.mutable? proposalID actionID := by
  rw [PlanRuntime.mutable?, PlanRuntime.mutable?, plan?, plan?, same.plans]
  cases before.plans.get? proposalID with
  | none => rfl
  | some ref => simp only [Option.map_some, Option.bind_some, same.plan_nodes]

end

section

variable (same : SameGraph MutableNode.placed before after)

include same

theorem identity (ref : NodeRef) : (after.node ref).identity = (before.node ref).identity :=
  congrArg Prod.fst (same.node ref)

theorem action (ref : NodeRef) : (after.node ref).action = (before.node ref).action :=
  congrArg (fun placed => placed.2.1) (same.node ref)

theorem parent? (proposalID : String) (dependency : PlanDependency)
    : after.parent? proposalID dependency = before.parent? proposalID dependency := by
  cases pinned : dependency.pin with
  | none => simp only [PlanRuntime.parent?, pinned, same.mutable?]
  | some pin => simp only [PlanRuntime.parent?, pinned, same.mutable?, same.identity]

theorem parents (ref : NodeRef) : after.parents ref = before.parents ref := by
  rw [PlanRuntime.parents, same.action, same.identity, funext (same.parent? _),
    ← PlanRuntime.parents]

end

end SameGraph

-- Recomputing the windows of a graph

private theorem withoutWindows_advance (node : MutableNode) (parents : List (Option MutableNode))
    : (parents.foldl advanceWindow node).withoutWindows = node.withoutWindows := by
  induction parents generalizing node with
  | nil => rfl
  | cons parent rest ih => cases parent <;> exact ih _

theorem forwardNode_sameGraph (runtime : PlanRuntime) (ref : NodeRef)
    : SameGraph MutableNode.withoutWindows runtime (runtime.forwardNode ref) :=
  .setNode (withoutWindows_advance _ _)

theorem liftParent_sameGraph (steps : ℕ) (runtime : PlanRuntime) (ref : NodeRef)
    : SameGraph MutableNode.withoutWindows runtime (liftParent steps runtime ref) :=
  .setNode rfl

theorem backwardNode_sameGraph (runtime : PlanRuntime) (ref : NodeRef)
    : SameGraph MutableNode.withoutWindows runtime (runtime.backwardNode ref) := by
  have counted
      : SameGraph MutableNode.withoutWindows runtime
          (runtime.setNode ref
            {
              runtime.node ref with
              criticalPathSteps := (runtime.node ref).criticalPathSteps + 1
            }) :=
    .setNode rfl
  exact counted.trans (.foldl (liftParent_sameGraph _) _ _)

/-- Recomputing a graph changes nothing but cached windows. -/
theorem recompute_sameGraph (runtime : PlanRuntime) (graph : GraphRef)
    : SameGraph MutableNode.withoutWindows runtime (runtime.recompute graph) := by
  rw [recompute]
  split
  · exact .refl _ runtime
  · exact (SameGraph.foldl forwardNode_sameGraph _ _).trans (.foldl backwardNode_sameGraph _ _)

-- Operations

theorem setExecution_sameGraph (runtime : PlanRuntime) (ref : NodeRef)
    (execution : MutableNodeExecution)
    : SameGraph MutableNode.timedOpportunity runtime (runtime.setExecution ref execution) :=
  .setNode rfl

/-- An opportunity with the same identity and matched call frames all timed data. -/
theorem setOpportunity_sameGraph {runtime : PlanRuntime} {ref : NodeRef}
    (identity : opportunity.identity = (runtime.node ref).opportunity.identity)
    (matched : opportunity.matchedAction? = (runtime.node ref).opportunity.matchedAction?)
    : SameGraph MutableNode.timed runtime (runtime.setOpportunity ref opportunity) :=
  .setNode (by simp only [MutableNode.timed, MutableNode.windowed, MutableNode.placed, identity, matched])

section

variable (runtime : PlanRuntime)

theorem reserveRevision_sameGraph (proposalID : String) (minimum : ℕ)
    : SameGraph MutableNode.timedOpportunity runtime (runtime.reserveRevision proposalID minimum).1 := by
  rw [reserveRevision]
  split
  · exact .refl _ runtime
  next ref _ =>
    refine ⟨rfl, rfl, rfl, rfl, fun other => ?_, fun _ => rfl⟩
    by_cases here : other = ref
    · subst here; simp [plan]
    · simp [plan, here]

theorem promote_sameGraph (proposalID actionID : String)
    : SameGraph MutableNode.timedOpportunity runtime (runtime.promote proposalID actionID).1 := by
  rw [promote]
  split
  · exact .refl _ runtime
  · split
    · exact .refl _ runtime
    · exact .refl _ runtime
    · split
      · exact .refl _ runtime
      · split
        · exact .refl _ runtime
        · exact setExecution_sameGraph ..

theorem defer_sameGraph (proposalID actionID : String)
    : SameGraph MutableNode.timedOpportunity runtime (runtime.defer proposalID actionID).1 := by
  rw [defer]
  split
  · exact .refl _ runtime
  · split
    · exact setExecution_sameGraph ..
    · exact .refl _ runtime

theorem rearmExecution_sameGraph (candidateID : String)
    : SameGraph MutableNode.timedOpportunity runtime (runtime.rearmExecution candidateID).1 := by
  rw [rearmExecution]
  generalize runtime.allNodes = nodes, false = rearmed
  induction nodes generalizing runtime rearmed with
  | nil => exact .refl _ runtime
  | cons ref rest ih =>
      rw [List.foldl_cons, rearmNode]
      split
      · exact (setExecution_sameGraph runtime ref _).trans (ih _ true)
      · exact ih runtime rearmed

theorem bindActionKey_sameGraph (identity : PlanActionIdentity) (actionKey : String)
    : SameGraph MutableNode.timedOpportunity runtime (runtime.bindActionKey identity actionKey).1 := by
  rw [bindActionKey]
  split
  · exact .refl _ runtime
  · dsimp only
    split
    · exact .refl _ runtime
    · exact .setNode rfl

theorem finishPreparation_sameGraph (identity : PlanActionIdentity)
    (blocked : Option ResolutionCause)
    : SameGraph MutableNode.timedOpportunity runtime (runtime.finishPreparation identity blocked).1 := by
  unfold finishPreparation
  split
  · exact .refl _ runtime
  · dsimp only
    split
    · exact .refl _ runtime
    · exact setExecution_sameGraph ..

theorem attachExecution_sameGraph (proposalID actionID candidateID : String) (owner : ℕ)
    : SameGraph MutableNode.timedOpportunity runtime
        (runtime.attachExecution proposalID actionID candidateID owner).1 := by
  rw [attachExecution]
  split
  · exact .refl _ runtime
  · split
    · exact { setExecution_sameGraph runtime _ _ with }
    · exact { setExecution_sameGraph runtime _ _ with }
    · exact .refl _ runtime

theorem completeAttachment_sameGraph (ref : NodeRef) (candidateID : String) (owner attachment : ℕ)
    : SameGraph MutableNode.timedOpportunity runtime
        (runtime.completeAttachment ref candidateID owner attachment) := by
  rw [completeAttachment]
  split
  · exact setExecution_sameGraph ..
  · exact .refl _ runtime

theorem rejectExecution_sameGraph (identity : PlanActionIdentity) (failure : ResolutionCause)
    : SameGraph MutableNode.timedOpportunity runtime (runtime.rejectExecution identity failure).1 := by
  rw [rejectExecution]
  split
  · exact .refl _ runtime
  · split
    · exact setExecution_sameGraph ..
    · exact setExecution_sameGraph ..
    · exact setExecution_sameGraph ..
    · exact .refl _ runtime

theorem moveOwner_sameGraph (owner : ℕ) (execution : OwnerExecution)
    : SameGraph MutableNode.timedOpportunity runtime (runtime.moveOwner owner execution) := by
  rw [moveOwner]
  split
  · exact .refl _ runtime
  · exact { SameGraph.refl MutableNode.timedOpportunity runtime with }

theorem claimMatch_sameGraph (proposalID actionID identityID : String)
    (actorAction : ActorActionIdentity) (relation : ActionKeyMatch)
    : SameGraph MutableNode.timed runtime
        (runtime.claimMatch proposalID actionID identityID actorAction relation).1 := by
  rw [claimMatch]
  split
  · exact .refl _ runtime
  · split
    · exact .refl _ runtime
    · exact setOpportunity_sameGraph (by simp) (PredictionOpportunity.claim_matchedAction? ..)

theorem miss_sameGraph (proposalID actionID : String) (actorAction : ActorActionIdentity)
    : SameGraph MutableNode.timed runtime (runtime.miss proposalID actionID actorAction).1 := by
  rw [miss]
  split
  · exact .refl _ runtime
  · exact setOpportunity_sameGraph (by simp) (PredictionOpportunity.miss_matchedAction? ..)

theorem unobserve_sameGraph (ref : NodeRef) (cause : ResolutionCause)
    : SameGraph MutableNode.timed runtime (runtime.unobserve ref cause).1 :=
  setOpportunity_sameGraph (PredictionOpportunity.unobserve_identity ..)
    (PredictionOpportunity.unobserve_matchedAction? ..)

theorem observe_sameGraph (identity : PlanActionIdentity) (observation : String)
    : SameGraph MutableNode.timedOpportunity runtime (runtime.observe identity observation) := by
  rw [observe]
  split
  · exact .refl _ runtime
  · exact .setNode rfl

/-- What a confirmation does: nothing, one settled opportunity of a node no plan has any
more, or that and the graph of the node's plan recomputed.
-/
theorem confirm_cases (ref : NodeRef) (actorAction : ActorActionIdentity)
    (adoption : PredictionAdoption)
    : (runtime.confirm ref actorAction adoption).1 = runtime
      ∨ ∃ opportunity : PredictionOpportunity,
          opportunity.identity = (runtime.node ref).opportunity.identity
          ∧ (let confirmed := runtime.setOpportunity ref opportunity
          let identity := (runtime.node ref).opportunity.identity
          ((∀ plan, confirmed.plan? identity.proposalID = some plan
              → plan.nodes.get? identity.actionID ≠ some ref)
            ∧ (runtime.confirm ref actorAction adoption).1 = confirmed)
          ∨ ∃ plan,
              confirmed.plan? identity.proposalID = some plan
              ∧ plan.nodes.get? identity.actionID = some ref
              ∧ (runtime.confirm ref actorAction adoption).1 = confirmed.recompute plan.graph) := by
  rw [confirm]
  dsimp only
  split
  · exact .inl rfl
  next opportunity settlement settled =>
    have kept : opportunity.identity = (runtime.node ref).opportunity.identity := by
      have same := (runtime.node ref).opportunity.confirm_identity actorAction adoption
      rwa [settled] at same
    refine .inr ⟨opportunity, kept, ?_⟩
    split
    next absent => exact .inl ⟨fun plan found => by simp [absent] at found, rfl⟩
    next plan found =>
      split
      next own => exact .inr ⟨plan, found, own, rfl⟩
      next other =>
        refine .inl ⟨fun held here => ?_, rfl⟩
        obtain rfl := Option.some.inj (found.symm.trans here)
        exact other

end

theorem setOpportunity_placed {runtime : PlanRuntime} {ref : NodeRef}
    (identity : opportunity.identity = (runtime.node ref).opportunity.identity)
    : SameGraph MutableNode.placed runtime (runtime.setOpportunity ref opportunity) :=
  .setNode (by simp only [MutableNode.placed, identity])

theorem confirm_sameGraph (runtime : PlanRuntime) (ref : NodeRef)
    (actorAction : ActorActionIdentity) (adoption : PredictionAdoption)
    : SameGraph MutableNode.placed runtime (runtime.confirm ref actorAction adoption).1 := by
  rcases runtime.confirm_cases ref actorAction adoption with
    same | ⟨opportunity, identity, ⟨-, same⟩ | ⟨plan, -, -, same⟩⟩
  · rw [same]; exact .refl _ runtime
  · rw [same]; exact setOpportunity_placed identity
  · rw [same]
    exact (setOpportunity_placed identity).trans
      ((recompute_sameGraph _ _).mono fun _ _ => MutableNode.placed_of_withoutWindows)

/-- An operation that changes neither the nodes of plans nor what windows depend on. -/
def Op.isLocal : Op → Bool
  | .apply .. | .confirm .. | .clear => false
  | _ => true

/-- An operation that also leaves every opportunity alone. -/
def Op.isExecution : Op → Bool
  | .apply .. | .confirm .. | .clear | .claimMatch .. | .miss .. | .unobserve .. => false
  | _ => true

/-- Operations on executions frame all but the execution data, by cases on the operation. -/
theorem step_sameOpportunity (runtime : PlanRuntime) {op : Op} (isExecution : op.isExecution)
    : SameGraph MutableNode.timedOpportunity runtime (runtime.step op) := by
  cases op with
  | apply | confirm | clear | claimMatch | miss | unobserve => cases isExecution
  | reserveRevision => exact reserveRevision_sameGraph ..
  | promote => exact promote_sameGraph ..
  | defer => exact defer_sameGraph ..
  | rearmExecution => exact rearmExecution_sameGraph ..
  | bindActionKey => exact bindActionKey_sameGraph ..
  | finishPreparation => exact finishPreparation_sameGraph ..
  | attachExecution => exact attachExecution_sameGraph ..
  | completeAttachment => exact completeAttachment_sameGraph ..
  | rejectExecution => exact rejectExecution_sameGraph ..
  | moveOwner => exact moveOwner_sameGraph ..
  | observe => exact observe_sameGraph ..

/-- Local operations frame all timed data, by cases on the operation. -/
theorem step_sameGraph (runtime : PlanRuntime) {op : Op} (isLocal : op.isLocal)
    : SameGraph MutableNode.timed runtime (runtime.step op) := by
  cases isExecution : op.isExecution with
  | true =>
      exact (step_sameOpportunity runtime isExecution).mono fun _ _ same =>
        congrArg Prod.fst same
  | false =>
      cases op with
      | apply | confirm | clear => cases isLocal
      | claimMatch => exact claimMatch_sameGraph ..
      | miss => exact miss_sameGraph ..
      | unobserve => exact unobserve_sameGraph ..
      | _ => cases isExecution

end PlanRuntime

end SpeculativeAction
