import SpeculativeAction.PlanRuntime.Model

/-! The operations on a plan runtime between its updates, and runs of any operations.
Only `apply` and `clear` change which nodes exist and how they depend on each other.
-/

namespace SpeculativeAction

open SpeculativeAction.Library

namespace PlanRuntime

-- Node execution

/-- Replace the stored execution of a node. -/
def setExecution (runtime : PlanRuntime) (ref : NodeRef) (execution : MutableNodeExecution)
    : PlanRuntime :=
  runtime.setNode ref { runtime.node ref with execution }

/-- The candidate an execution names. -/
def candidateID? : MutableNodeExecution → Option String
  | .attached candidateID .. => some candidateID
  | .plain (.queued candidateID) | .plain (.running candidateID) | .plain (.succeeded candidateID)
  | .plain (.cancelled _ candidateID) => some candidateID
  | .plain (.failed _ candidateID) => candidateID
  | _ => none

/-- Reserve the next revision of a plan, at least `minimum`. -/
def reserveRevision (runtime : PlanRuntime) (proposalID : String) (minimum : ℕ)
    : PlanRuntime × Option ℕ :=
  match runtime.plans.get? proposalID with
  | none => (runtime, none)
  | some ref =>
      let plan := runtime.plan ref
      let revision := max (max plan.nextRevision (plan.revision + 1)) minimum
      ({
        runtime with
        planHeap := runtime.planHeap.write ref { plan with nextRevision := revision + 1 }
      }, some revision)

inductive Promotion where
  | scheduled (node : NodeSnapshot)
  | waiting | blocked | settled | alreadyDispatched | missing

def promote (runtime : PlanRuntime) (proposalID actionID : String) : PlanRuntime × Promotion :=
  match runtime.mutable? proposalID actionID with
  | none => (runtime, .missing)
  | some ref =>
      match (runtime.snapshot ref).readiness with
      | .settled => (runtime, .settled)
      | .blocked => (runtime, .blocked)
      | readiness =>
          if !isDeferred (runtime.node ref).execution then
            (runtime, .alreadyDispatched)
          else if readiness = .waiting then
            (runtime, .waiting)
          else
            let next := runtime.setExecution ref (.plain .scheduled)
            (next, .scheduled (next.snapshot ref))

def defer (runtime : PlanRuntime) (proposalID actionID : String) : PlanRuntime × Bool :=
  match runtime.mutable? proposalID actionID with
  | none => (runtime, false)
  | some ref =>
      match (runtime.node ref).execution with
      | .plain .scheduled => (runtime.setExecution ref (.plain .deferred), true)
      | _ => (runtime, false)

/-- Whether a node waits for another run of its settled candidate. -/
def rearmable (runtime : PlanRuntime) (candidateID : String) (node : MutableNode) : Bool :=
  candidateID? node.execution = some candidateID && node.opportunity.isPending
    && executionSettled (runtime.executionProjection node.execution)

def rearmNode (candidateID : String) (state : PlanRuntime × Bool) (ref : NodeRef)
    : PlanRuntime × Bool :=
  if state.1.rearmable candidateID (state.1.node ref) then
    (state.1.setExecution ref (.plain .deferred), true)
  else
    state

def rearmExecution (runtime : PlanRuntime) (candidateID : String) : PlanRuntime × Bool :=
  runtime.allNodes.foldl (rearmNode candidateID) (runtime, false)

/-- `this.mutable(identity.proposalID, identity.actionID)`, when it is the named node. -/
def identified? (runtime : PlanRuntime) (identity : PlanActionIdentity) : Option NodeRef :=
  (runtime.mutable? identity.proposalID identity.actionID).filter fun ref =>
    (runtime.node ref).identity.id = identity.id

def bindActionKey (runtime : PlanRuntime) (identity : PlanActionIdentity) (actionKey : String)
    : PlanRuntime × Bool :=
  match runtime.identified? identity with
  | none => (runtime, false)
  | some ref =>
      let node := runtime.node ref
      if node.actionKey.isSome || !isDeferred node.execution || node.opportunity.isSettled then
        (runtime, false)
      else
        (runtime.setNode ref
          { node with actionKey := some actionKey, execution := .plain .preparing }, true)

def finishPreparation (runtime : PlanRuntime) (identity : PlanActionIdentity)
    (blocked : Option ResolutionCause)
    : PlanRuntime × Bool :=
  match runtime.identified? identity with
  | none => (runtime, false)
  | some ref =>
      let node := runtime.node ref
      if node.execution ≠ .plain .preparing || node.opportunity.isSettled then
        (runtime, false)
      else
        let execution : PlanNodeExecution := match blocked with
          | some cause => .executionBlocked cause
          | none => .deferred
        (runtime.setExecution ref (.plain execution), true)

def attachExecution (runtime : PlanRuntime) (proposalID actionID candidateID : String) (owner : ℕ)
    : PlanRuntime × Bool :=
  match runtime.mutable? proposalID actionID with
  | none => (runtime, false)
  | some ref =>
      match (runtime.node ref).execution with
      | .plain .deferred | .plain .scheduled =>
          ({
            runtime.setExecution ref (.attached candidateID owner runtime.attachments) with
            attachments := runtime.attachments + 1
          }, true)
      | _ => (runtime, false)

/-- The completion callback of an attachment: it only acts while its node still has it. -/
def completeAttachment (runtime : PlanRuntime) (ref : NodeRef) (candidateID : String)
    (owner attachment : ℕ)
    : PlanRuntime :=
  if (runtime.node ref).execution = .attached candidateID owner attachment
      ∧ (runtime.owners owner).isSettled then
    runtime.setExecution ref (.plain (projectExecution (runtime.owners owner) candidateID))
  else
    runtime

def rejectExecution (runtime : PlanRuntime) (identity : PlanActionIdentity)
    (failure : ResolutionCause)
    : PlanRuntime × Bool :=
  match runtime.identified? identity with
  | none => (runtime, false)
  | some ref =>
      match (runtime.node ref).execution with
      | .plain .deferred | .plain .preparing | .plain .scheduled =>
          (runtime.setExecution ref (.plain (.failed failure none)), true)
      | _ => (runtime, false)

/-- A candidate's execution moves on its own; a settled one never moves again. -/
def moveOwner (runtime : PlanRuntime) (owner : ℕ) (execution : OwnerExecution) : PlanRuntime :=
  if (runtime.owners owner).isSettled then
    runtime
  else
    { runtime with owners := Function.update runtime.owners owner execution }

-- Predictions

/-- Replace the opportunity a node owns. -/
def setOpportunity (runtime : PlanRuntime) (ref : NodeRef) (opportunity : PredictionOpportunity)
    : PlanRuntime :=
  runtime.setNode ref { runtime.node ref with opportunity }

/-- Claim the prediction of a snapshot for an Actor call, if the node is still current. -/
def claimMatch (runtime : PlanRuntime) (proposalID actionID identityID : String)
    (actorAction : ActorActionIdentity) (relation : ActionKeyMatch)
    : PlanRuntime × Option NodeRef :=
  match runtime.mutable? proposalID actionID with
  | none => (runtime, none)
  | some ref =>
      if (runtime.node ref).identity.id ≠ identityID
          || !runtime.isMatchable ref (actorDecisionSequence actorAction) then
        (runtime, none)
      else
        let (opportunity, claimed) := (runtime.node ref).opportunity.claim actorAction relation
        (runtime.setOpportunity ref opportunity, if claimed then some ref else none)

/-- Confirm a claimed opportunity. Its node may have been retired since; only a node its
plan still has makes the graph be recomputed.
-/
def confirm (runtime : PlanRuntime) (ref : NodeRef) (actorAction : ActorActionIdentity)
    (adoption : PredictionAdoption)
    : PlanRuntime × Option PredictionSettlement :=
  let owned := (runtime.node ref).opportunity
  match owned.confirm actorAction adoption with
  | (_, none) => (runtime, none)
  | (opportunity, some settlement) =>
      let confirmed := runtime.setOpportunity ref opportunity
      let identity := owned.identity
      match confirmed.plan? identity.proposalID with
      | none => (confirmed, some settlement)
      | some plan =>
          if plan.nodes.get? identity.actionID = some ref then
            (confirmed.recompute plan.graph, some settlement)
          else
            (confirmed, some settlement)

def miss (runtime : PlanRuntime) (proposalID actionID : String) (actorAction : ActorActionIdentity)
    : PlanRuntime × Option PredictionSettlement :=
  match runtime.mutable? proposalID actionID with
  | none => (runtime, none)
  | some ref =>
      let (opportunity, settlement) := (runtime.node ref).opportunity.miss actorAction
      (runtime.setOpportunity ref opportunity, settlement)

/-- The engine settles an opportunity it holds without an observation. -/
def unobserve (runtime : PlanRuntime) (ref : NodeRef) (cause : ResolutionCause)
    : PlanRuntime × Option PredictionSettlement :=
  let (opportunity, settlement) := (runtime.node ref).opportunity.unobserve cause
  (runtime.setOpportunity ref opportunity, settlement)

def observe (runtime : PlanRuntime) (identity : PlanActionIdentity) (observation : String)
    : PlanRuntime :=
  match runtime.identified? identity with
  | none => runtime
  | some ref => runtime.setNode ref { runtime.node ref with observation := some observation }

def clear (runtime : PlanRuntime) : PlanRuntime := { runtime with plans := .empty }

-- Runs

/-- One call on the runtime, a completion callback, or a move of a candidate's execution. -/
inductive Op where
  | apply (update : HandedUpdate) (anchorDecisionSeq : Number)
  | reserveRevision (proposalID : String) (minimum : ℕ)
  | promote (proposalID actionID : String)
  | defer (proposalID actionID : String)
  | rearmExecution (candidateID : String)
  | bindActionKey (identity : PlanActionIdentity) (actionKey : String)
  | finishPreparation (identity : PlanActionIdentity) (blocked : Option ResolutionCause)
  | attachExecution (proposalID actionID candidateID : String) (owner : ℕ)
  | completeAttachment (ref : NodeRef) (candidateID : String) (owner attachment : ℕ)
  | rejectExecution (identity : PlanActionIdentity) (failure : ResolutionCause)
  | moveOwner (owner : ℕ) (execution : OwnerExecution)
  | claimMatch (proposalID actionID identityID : String) (actorAction : ActorActionIdentity)
      (relation : ActionKeyMatch)
  | confirm (ref : NodeRef) (actorAction : ActorActionIdentity) (adoption : PredictionAdoption)
  | miss (proposalID actionID : String) (actorAction : ActorActionIdentity)
  | unobserve (ref : NodeRef) (cause : ResolutionCause)
  | observe (identity : PlanActionIdentity) (observation : String)
  | clear

def step (runtime : PlanRuntime) : Op → PlanRuntime
  | .apply update anchorDecisionSeq => (runtime.apply update anchorDecisionSeq).1
  | .reserveRevision proposalID minimum => (runtime.reserveRevision proposalID minimum).1
  | .promote proposalID actionID => (runtime.promote proposalID actionID).1
  | .defer proposalID actionID => (runtime.defer proposalID actionID).1
  | .rearmExecution candidateID => (runtime.rearmExecution candidateID).1
  | .bindActionKey identity actionKey => (runtime.bindActionKey identity actionKey).1
  | .finishPreparation identity blocked => (runtime.finishPreparation identity blocked).1
  | .attachExecution proposalID actionID candidateID owner =>
      (runtime.attachExecution proposalID actionID candidateID owner).1
  | .completeAttachment ref candidateID owner attachment =>
      runtime.completeAttachment ref candidateID owner attachment
  | .rejectExecution identity failure => (runtime.rejectExecution identity failure).1
  | .moveOwner owner execution => runtime.moveOwner owner execution
  | .claimMatch proposalID actionID identityID actorAction relation =>
      (runtime.claimMatch proposalID actionID identityID actorAction relation).1
  | .confirm ref actorAction adoption => (runtime.confirm ref actorAction adoption).1
  | .miss proposalID actionID actorAction => (runtime.miss proposalID actionID actorAction).1
  | .unobserve ref cause => (runtime.unobserve ref cause).1
  | .observe identity observation => runtime.observe identity observation
  | .clear => runtime.clear

/-- The runtime after any operations in any order. -/
def afterOps (ops : List Op) : PlanRuntime := runAll step create ops

end PlanRuntime

end SpeculativeAction
