import SpeculativeAction.DependencyOrder
import SpeculativeAction.Library.CountSums
import SpeculativeAction.Library.Heap
import SpeculativeAction.Library.TransitionSystem
import SpeculativeAction.PlanRuntime.ExecutionEquality
import SpeculativeAction.PlanRuntime.Opportunity

/-! The plan runtime: plans, their nodes and the dependency graphs they share. Plans, graphs
and nodes are objects other objects refer to, so each kind lives in a heap of its own. The sums
that give decision windows are rounded as the host rounds them.
-/

namespace SpeculativeAction

open SpeculativeAction.Library

-- Objects

abbrev NodeRef := ℕ
abbrev PlanRef := ℕ
abbrev GraphRef := ℕ

/-- The visible execution of a node. A failure before any candidate exists names none. -/
inductive PlanNodeExecution where
  | deferred
  | preparing
  | scheduled
  | executionBlocked (cause : ResolutionCause)
  | queued (candidateID : String)
  | running (candidateID : String)
  | succeeded (candidateID : String)
  | failed (cause : ResolutionCause) (candidateID : Option String)
  | cancelled (cause : ResolutionCause) (candidateID : String)
deriving DecidableEq

/-- The execution of a candidate that nodes can be attached to. -/
inductive OwnerExecution where
  | queued
  | running
  | succeeded
  | failed (cause : ResolutionCause)
  | cancelled (cause : ResolutionCause)
deriving DecidableEq

def OwnerExecution.isSettled : OwnerExecution → Bool
  | .queued | .running => false
  | _ => true

/-- The stored execution of a node. An attachment is an object of its own, so a later
attachment of the same candidate is told from it by its number.
-/
inductive MutableNodeExecution where
  | plain (execution : PlanNodeExecution)
  | attached (candidateID : String) (owner attachment : ℕ)
deriving DecidableEq

structure MutableNode where
  identity : PlanActionIdentity
  action : PlanAction
  actionKey : Option String
  anchorDecisionSeq : ℕ
  earliestDecisionSeq : ℕ∞
  expectedDecisionSeq : ℕ∞
  latestDecisionSeq : ℕ∞
  criticalPathSteps : ℕ
  validDependencies : Bool
  execution : MutableNodeExecution
  opportunity : PredictionOpportunity
  observation : Option String

structure MutablePlan where
  id : String
  source : String
  revision : ℕ
  nextRevision : ℕ
  nodes : OrderedMap String NodeRef
  graph : GraphRef

/-- `ordered` is `none` when the source would store `undefined`. -/
structure PlanGraph where
  plans : List PlanRef
  ordered : Option (List NodeRef)

instance : Inhabited PlanGraph := ⟨⟨[], some []⟩⟩
instance : Inhabited MutablePlan := ⟨⟨"", "", 0, 0, .empty, 0⟩⟩
instance : Inhabited MutableNode where
  default :=
    {
      identity := ⟨false, "", "", "", ""⟩
      action := ⟨"", .toolCall, none, "", ⟨.null, rfl⟩, none, none, none, []⟩
      actionKey := none
      anchorDecisionSeq := 0
      earliestDecisionSeq := 0
      expectedDecisionSeq := 0
      latestDecisionSeq := 0
      criticalPathSteps := 0
      validDependencies := true
      execution := .plain .deferred
      opportunity := ⟨⟨false, "", "", "", ""⟩, .pending⟩
      observation := none
    }

/-- The runtime and the executions of the candidates it can be attached to. -/
structure PlanRuntime where
  plans : OrderedMap String PlanRef
  planHeap : Heap MutablePlan
  graphHeap : Heap PlanGraph
  nodeHeap : Heap MutableNode
  owners : ℕ → OwnerExecution
  attachments : ℕ

namespace PlanRuntime

def create : PlanRuntime where
  plans := .empty
  planHeap := .empty
  graphHeap := .empty
  nodeHeap := .empty
  owners := fun _ => .queued
  attachments := 0

def plan (runtime : PlanRuntime) (ref : PlanRef) : MutablePlan := runtime.planHeap.read ref

def graph (runtime : PlanRuntime) (ref : GraphRef) : PlanGraph := runtime.graphHeap.read ref

def node (runtime : PlanRuntime) (ref : NodeRef) : MutableNode := runtime.nodeHeap.read ref

def setNode (runtime : PlanRuntime) (ref : NodeRef) (node : MutableNode) : PlanRuntime :=
  { runtime with nodeHeap := runtime.nodeHeap.write ref node }

/-- `this.plans.get(proposalID)` -/
def plan? (runtime : PlanRuntime) (proposalID : String) : Option MutablePlan :=
  (runtime.plans.get? proposalID).map runtime.plan

/-- `this.mutable(proposalID, actionID)` -/
def mutable? (runtime : PlanRuntime) (proposalID actionID : String) : Option NodeRef :=
  (runtime.plan? proposalID).bind fun plan => plan.nodes.get? actionID

/-- `this.parent(proposalID, dependency)`: same-plan edges resolve by action, pinned edges
only while the pinned identity is the current one.
-/
def parent? (runtime : PlanRuntime) (proposalID : String) (dependency : PlanDependency)
    : Option NodeRef :=
  match dependency.pin with
  | none => runtime.mutable? proposalID dependency.actionID
  | some pin =>
      (runtime.mutable? pin.proposalID dependency.actionID).filter fun ref =>
        (runtime.node ref).identity.id = pin.identity

/-- The resolved parents of a node, in dependency order. -/
def parents (runtime : PlanRuntime) (ref : NodeRef) : List NodeRef :=
  (runtime.node ref).action.dependsOn.filterMap
    (runtime.parent? (runtime.node ref).identity.proposalID)

/-- Every node of a plan, in map order. -/
def nodesOf (runtime : PlanRuntime) (ref : PlanRef) : List NodeRef := (runtime.plan ref).nodes.values

/-- Every node of every plan. -/
def allNodes (runtime : PlanRuntime) : List NodeRef := runtime.plans.values.flatMap runtime.nodesOf

-- Readiness and snapshots

def projectExecution (owner : OwnerExecution) (candidateID : String) : PlanNodeExecution :=
  match owner with
  | .queued => .queued candidateID
  | .running => .running candidateID
  | .succeeded => .succeeded candidateID
  | .failed cause => .failed cause (some candidateID)
  | .cancelled cause => .cancelled cause candidateID

def executionProjection (runtime : PlanRuntime) : MutableNodeExecution → PlanNodeExecution
  | .plain execution => execution
  | .attached candidateID owner _ => projectExecution (runtime.owners owner) candidateID

def executionSettled : PlanNodeExecution → Bool
  | .succeeded _ | .failed _ _ | .cancelled _ _ => true
  | _ => false

inductive Readiness where
  | ready | waiting | blocked | settled
deriving DecidableEq

/-- Whether one parent satisfies one edge. -/
def conditionReadiness (runtime : PlanRuntime) (parent : MutableNode)
    (dependency : PlanDependency) (matching : Bool)
    : Readiness :=
  let settlement := parent.opportunity.settlement
  match dependency.condition with
  | .prediction observation =>
      if settlement.any (!predictionMatched ·) || parent.observation.any (· ≠ observation) then
        .blocked
      else if matching && (settlement.isNone || parent.observation.isNone) then
        .waiting
      else
        .ready
  | .actorAdopted =>
      match settlement with
      | none => .waiting
      | some settlement =>
          if (predictionLearning settlement).adopted.getD false then .ready else .blocked
  | condition =>
      let execution := runtime.executionProjection parent.execution
      if !executionSettled execution then
        .waiting
      else
        match condition, execution with
        | .executionSucceeded, .succeeded _ => .ready
        | .executionSucceeded, _ => .blocked
        | _, _ => .ready

/-- The edges of one visited node: `none` when one of them blocks, else the readiness so far
and the stack with every parent pushed. Only the asking node's own edges make it wait.
-/
def readEdges (runtime : PlanRuntime) (proposalID : String) (own matching : Bool)
    : List PlanDependency → Readiness → List NodeRef → Option (Readiness × List NodeRef)
  | [], readiness, pending => some (readiness, pending)
  | dependency :: rest, readiness, pending =>
      if dependency.condition = .resource then
        runtime.readEdges proposalID own matching rest readiness pending
      else
        match runtime.parent? proposalID dependency with
        | none => none
        | some parent =>
            match runtime.conditionReadiness (runtime.node parent) dependency (matching && own) with
            | .blocked => none
            | .waiting =>
                runtime.readEdges proposalID own matching rest
                  (if own then .waiting else readiness) (parent :: pending)
            | _ => runtime.readEdges proposalID own matching rest readiness (parent :: pending)

/-- The loop of `dependencyReadiness` over all ancestors; `none` when its budget runs out. -/
def readinessLoop (runtime : PlanRuntime) (start : NodeRef) (matching : Bool)
    : ℕ → List NodeRef → List NodeRef → Readiness → Option Readiness
  | _, [], _, readiness => some readiness
  | 0, _ :: _, _, _ => none
  | fuel + 1, current :: pending, visited, readiness =>
      if current ∈ visited then
        runtime.readinessLoop start matching fuel pending visited readiness
      else if !(runtime.node current).validDependencies then
        some .blocked
      else
        match runtime.readEdges (runtime.node current).identity.proposalID (current == start)
            matching (runtime.node current).action.dependsOn readiness pending with
        | none => some .blocked
        | some (readiness, pending) =>
            runtime.readinessLoop start matching fuel pending (current :: visited) readiness

/-- A budget for the ancestors of any node: one pop for each edge of each object. -/
def readinessFuel (runtime : PlanRuntime) : ℕ :=
  1 + ((List.range runtime.nodeHeap.size).map
    fun ref => (runtime.node ref).action.dependsOn.length).sum

def dependencyReadiness (runtime : PlanRuntime) (ref : NodeRef) (matching : Bool := false)
    : Readiness :=
  (runtime.readinessLoop ref matching runtime.readinessFuel [ref] [] .ready).getD .blocked

/-- What a caller sees of a node. -/
structure NodeSnapshot where
  identity : PlanActionIdentity
  proposalID : String
  source : String
  revision : ℕ
  action : PlanAction
  actionKey : Option String
  anchorDecisionSeq : ℕ
  earliestDecisionSeq : ℕ∞
  expectedDecisionSeq : ℕ∞
  latestDecisionSeq : ℕ∞
  criticalPathSteps : ℕ
  dependenciesReady : Bool
  execution : PlanNodeExecution
  readiness : Readiness
  prediction : PredictionIdentity
  predictionState : PredictionOpportunityState

def isDeferred : MutableNodeExecution → Bool
  | .plain .deferred => true
  | _ => false

def snapshot (runtime : PlanRuntime) (ref : NodeRef) : NodeSnapshot :=
  let node := runtime.node ref
  let plan := (runtime.plan? node.identity.proposalID).getD default
  let dependencies := runtime.dependencyReadiness ref
  {
    identity := node.identity
    proposalID := plan.id
    source := plan.source
    revision := plan.revision
    action := node.action
    actionKey := node.actionKey
    anchorDecisionSeq := node.anchorDecisionSeq
    earliestDecisionSeq := node.earliestDecisionSeq
    expectedDecisionSeq := node.expectedDecisionSeq
    latestDecisionSeq := node.latestDecisionSeq
    criticalPathSteps := node.criticalPathSteps
    dependenciesReady := dependencies = .ready
    execution := runtime.executionProjection node.execution
    readiness :=
      if node.opportunity.isSettled then .settled
      else if dependencies = .ready ∧ !isDeferred node.execution then .waiting
      else dependencies
    prediction := node.opportunity.identity
    predictionState := node.opportunity.state
  }

def isMatchable (runtime : PlanRuntime) (ref : NodeRef) (decisionSequence : ℕ) : Bool :=
  (runtime.node ref).opportunity.isPending
    && (runtime.node ref).earliestDecisionSeq ≤ decisionSequence
    && runtime.dependencyReadiness ref true = .ready

-- Decision windows and critical paths

/-- `anchor + horizon + 1`, each sum rounded; the anchor is itself a number of the host. -/
def dueAfter (anchorDecisionSeq horizon : ℕ) : ℕ∞ :=
  addCounts (addCounts (roundCount anchorDecisionSeq) horizon) 1

/-- Windows of a node before its parents are considered: a matched prediction happened at
its Actor decision, any other one is due from its anchor on.
-/
def withBaseWindow (node : MutableNode) : MutableNode :=
  let matched := node.opportunity.matchedAction?.map fun action =>
    (actorDecisionSequence action : ℕ∞)
  {
    node with
    earliestDecisionSeq := matched.getD (addCounts (roundCount node.anchorDecisionSeq) 1)
    expectedDecisionSeq := matched.getD (dueAfter node.anchorDecisionSeq (horizon node.action))
    latestDecisionSeq := matched.getD (dueAfter node.anchorDecisionSeq (latestHorizon node.action))
    criticalPathSteps := 0
    validDependencies := true
  }

/-- Actor decisions between a parent and its dependents. -/
def batchAdvance (parent : MutableNode) : ℕ :=
  match parent.action.type with
  | .operation => 0
  | .toolCall => 1

/-- The effect of one dependency on the windows of its node. -/
def advanceWindow (node : MutableNode) (parent : Option MutableNode) : MutableNode :=
  match parent with
  | none => { node with validDependencies := false }
  | some parent =>
      {
        node with
        validDependencies := node.validDependencies && parent.validDependencies
        earliestDecisionSeq :=
          maxCounts node.earliestDecisionSeq
            (addCounts parent.earliestDecisionSeq (batchAdvance parent))
        expectedDecisionSeq :=
          maxCounts node.expectedDecisionSeq
            (addCounts parent.expectedDecisionSeq (batchAdvance parent))
        latestDecisionSeq :=
          maxCounts node.latestDecisionSeq
            (addCounts parent.latestDecisionSeq (batchAdvance parent))
      }

/-- Forward pass over one node: a node is never its own parent, so its parents are read
before it is written.
-/
def forwardNode (runtime : PlanRuntime) (ref : NodeRef) : PlanRuntime :=
  let node := runtime.node ref
  let resolved := node.action.dependsOn.map fun dependency =>
    (runtime.parent? node.identity.proposalID dependency).map runtime.node
  runtime.setNode ref (resolved.foldl advanceWindow (withBaseWindow node))

/-- Lift one parent to the critical path of a dependent. -/
def liftParent (steps : ℕ) (runtime : PlanRuntime) (parent : NodeRef) : PlanRuntime :=
  let node := runtime.node parent
  runtime.setNode parent { node with criticalPathSteps := max node.criticalPathSteps steps }

/-- Backward pass over one node. -/
def backwardNode (runtime : PlanRuntime) (ref : NodeRef) : PlanRuntime :=
  let node := runtime.node ref
  let steps := node.criticalPathSteps + 1
  let counted := runtime.setNode ref { node with criticalPathSteps := steps }
  (counted.parents ref).foldl (liftParent steps) counted

/-- Without a stored order the source throws here, after its state was written. -/
def recompute (runtime : PlanRuntime) (graph : GraphRef) : PlanRuntime :=
  match (runtime.graph graph).ordered with
  | none => runtime
  | some ordered =>
      ordered.reverse.foldl backwardNode (ordered.foldl forwardNode runtime)

-- Committing an accepted update

def newNode (proposalID source : String) (revision : ℕ) (action : PlanAction)
    (anchorDecisionSeq : ℕ)
    : MutableNode :=
  let identity : PlanActionIdentity :=
    {
      operation := action.type = .operation
      id := identityText source proposalID action.id revision
      source
      proposalID
      actionID := action.id
    }
  {
    identity
    action
    actionKey := none
    anchorDecisionSeq
    earliestDecisionSeq := addCounts (roundCount anchorDecisionSeq) 1
    expectedDecisionSeq := dueAfter anchorDecisionSeq (horizon action)
    latestDecisionSeq := dueAfter anchorDecisionSeq (latestHorizon action)
    criticalPathSteps := 1
    validDependencies := true
    execution := .plain .deferred
    opportunity := { identity }
    observation := none
  }

/-- An update that passed every check, with its full action map in dependency order. -/
structure CommitInput where
  id : String
  source : String
  revision : ℕ
  actions : OrderedMap String PlanAction
  upserted : List PlanAction
  ordered : List PlanAction
  anchorDecisionSeq : Number

def CommitInput.touched (input : CommitInput) : List String := input.upserted.map PlanAction.id

/-- The action a plan object currently stores under an action id. -/
def storedAction? (runtime : PlanRuntime) (current : Option MutablePlan) (actionID : String)
    : Option PlanAction :=
  (current.bind fun plan => plan.nodes.get? actionID).map fun ref => (runtime.node ref).action

/-- One step of the `replaced` pass: a touched action that changed, or a kept one with a
replaced same-plan dependency.
-/
def replaceStep (runtime : PlanRuntime) (current : Option MutablePlan) (touched : List String)
    (replaced : List String) (action : PlanAction)
    : List String :=
  match runtime.storedAction? current action.id with
  | none => replaced
  | some previous =>
      if (decide (action.id ∈ touched) && !samePlanActionExecution previous action)
          || action.dependsOn.any (fun dependency =>
            dependency.pin.isNone && decide (dependency.actionID ∈ replaced)) then
        replaced ++ [action.id]
      else
        replaced

def replacedIDs (runtime : PlanRuntime) (current : Option MutablePlan) (touched : List String)
    (ordered : List PlanAction)
    : List String :=
  ordered.foldl (runtime.replaceStep current touched) []

def undispatched : MutableNodeExecution → Bool
  | .plain .deferred | .plain .preparing => true
  | _ => false

/-- A surviving node takes its new action record; touched work that was not dispatched is
anchored again.
-/
def keepNode (action : PlanAction) (touched : Bool) (anchor : ℕ) (previous : MutableNode)
    : MutableNode :=
  {
    previous with
    action
    anchorDecisionSeq :=
      if touched && undispatched previous.execution then anchor else previous.anchorDecisionSeq
  }

/-- The heap of nodes and the new node map while a commit fills them. -/
structure Placement where
  nodeHeap : Heap MutableNode
  nodes : OrderedMap String NodeRef

/-- Keep a surviving node under its new action record, or make a new one. -/
def placeNode (input : CommitInput) (current : Option MutablePlan) (replaced : List String)
    (placement : Placement) (entry : String × PlanAction)
    : Placement :=
  let (id, action) := entry
  let anchor := input.anchorDecisionSeq.nonNegativeCount
  match (current.bind fun plan => plan.nodes.get? id), decide (id ∈ replaced) with
  | some ref, false =>
      {
        nodeHeap :=
          placement.nodeHeap.modify ref (keepNode action (decide (id ∈ input.touched)) anchor)
        nodes := placement.nodes.set id ref
      }
  | _, _ =>
      {
        nodeHeap :=
          placement.nodeHeap.alloc (newNode input.id input.source input.revision action anchor)
        nodes := placement.nodes.set id placement.nodeHeap.size
      }

/-- Add a reference to an insertion-ordered set of references. -/
def addRef (refs : List ℕ) (ref : ℕ) : List ℕ := if ref ∈ refs then refs else refs ++ [ref]

/-- The graphs joined by an update: its plan's own and those of its cross-plan parents. -/
def connectedGraphs (runtime : PlanRuntime) (input : CommitInput)
    (current : Option MutablePlan)
    : List GraphRef :=
  let pinned := input.actions.values.flatMap fun action =>
    action.dependsOn.filterMap fun dependency =>
      dependency.pin.bind fun pin => (runtime.plan? pin.proposalID).map MutablePlan.graph
  pinned.foldl addRef (current.map MutablePlan.graph).toList

/-- The order of a graph's nodes, by their resolved parents. -/
def graphOrder (runtime : PlanRuntime) (plans : List PlanRef) : Option (List NodeRef) :=
  let roots := plans.flatMap runtime.nodesOf
  let dependencies := fun ref => (runtime.parents ref).map some
  match dependencyOrder (searchFuel roots dependencies) roots dependencies with
  | .finished order => some order
  | _ => none

structure PlanSnapshot where
  id : String
  source : String
  revision : ℕ
  actions : List PlanAction

inductive UpdateResult where
  | accepted (plan : PlanSnapshot) (upserted : List PlanAction) (removed : List String)
    (retired : List NodeSnapshot)
  | rejected (reason : UpdateRejection)

def planSnapshot (runtime : PlanRuntime) (plan : MutablePlan) : PlanSnapshot where
  id := plan.id
  source := plan.source
  revision := plan.revision
  actions := plan.nodes.values.map fun ref => (runtime.node ref).action

section

variable (runtime : PlanRuntime) (input : CommitInput)

/-- `this.plans.get(input.id)` -/
def current : Option MutablePlan := runtime.plan? input.id

/-- The stored actions whose execution an update changes. -/
def replaced : List String :=
  runtime.replacedIDs (runtime.current input) input.touched input.ordered

def removed : List String :=
  ((runtime.current input).map fun plan =>
    plan.nodes.keys.filter fun id => !input.actions.has id).getD []

def retired : List NodeSnapshot :=
  (runtime.removed input ++ runtime.replaced input).filterMap fun id =>
    ((runtime.current input).bind fun plan => plan.nodes.get? id).map runtime.snapshot

/-- The nodes of the new plan, kept or new, in the order of its actions. -/
def placement : Placement :=
  input.actions.entries.foldl
    (placeNode input (runtime.current input) (runtime.replaced input))
    ⟨runtime.nodeHeap, .empty⟩

def nextPlan : MutablePlan where
  id := input.id
  source := input.source
  revision := input.revision
  nextRevision :=
    max (((runtime.current input).map MutablePlan.nextRevision).getD 0) (input.revision + 1)
  nodes := (runtime.placement input).nodes
  graph := runtime.graphHeap.size

/-- The plans of the joined graphs, with the new plan in place of the current one. -/
def joinedPlans : List PlanRef :=
  let previous := (runtime.connectedGraphs input (runtime.current input)).flatMap fun graph =>
    (runtime.graph graph).plans
  let others := previous.filter fun ref => runtime.plans.get? input.id ≠ some ref
  addRef (others.foldl addRef []) runtime.planHeap.size

/-- The runtime with the new plan and its nodes, before its graph is ordered. -/
def placePlan : PlanRuntime :=
  let graph := runtime.graphHeap.size
  {
    runtime with
    plans := runtime.plans.set input.id runtime.planHeap.size
    planHeap :=
      (runtime.joinedPlans input).foldl
        (fun heap ref => heap.modify ref fun plan => { plan with graph })
        (runtime.planHeap.alloc (runtime.nextPlan input))
    nodeHeap := (runtime.placement input).nodeHeap
  }

/-- The runtime with the new graph, before its windows are computed. -/
def linkGraph : PlanRuntime :=
  let placed := runtime.placePlan input
  {
    placed with
    graphHeap :=
      runtime.graphHeap.alloc
        ⟨runtime.joinedPlans input, placed.graphOrder (runtime.joinedPlans input)⟩
  }

def commit : PlanRuntime × UpdateResult :=
  let final := (runtime.linkGraph input).recompute runtime.graphHeap.size
  (final,
    .accepted (final.planSnapshot (runtime.nextPlan input))
      (input.upserted ++ input.ordered.filter fun action =>
        decide (action.id ∈ runtime.replaced input) && !decide (action.id ∈ input.touched))
      (runtime.removed input) (runtime.retired input))

end

-- Applying an update

/-- Whether a stored action depends on a replaced pinned parent, or on an own parent that
was not retained before it.
-/
def losesParent (runtime : PlanRuntime) (id : String) (retained : List String)
    (action : PlanAction)
    : Bool :=
  action.dependsOn.any fun dependency =>
    match dependency.pin with
    | some _ => (runtime.parent? id dependency).isNone
    | none => !decide (dependency.actionID ∈ retained)

/-- A replacement must be the same execution; an absent action must have an own parent. -/
def refusesRetention (action : PlanAction) (replacement : Option PlanAction) : Bool :=
  match replacement with
  | some replacement => !samePlanActionExecution action replacement
  | none => !action.dependsOn.any fun dependency => dependency.pin.isNone

/-- One step of the retention pass over the shared order: unchanged actions whose parents
are retained stay, and so do their absent descendants.
-/
def retainStep (runtime : PlanRuntime) (id : String)
    (state : OrderedMap String PlanAction × List String) (ref : NodeRef)
    : OrderedMap String PlanAction × List String :=
  let (actions, retained) := state
  let node := runtime.node ref
  if node.identity.proposalID ≠ id then
    state
  else
    let action := node.action
    let replacement := actions.get? action.id
    if runtime.losesParent id retained action || refusesRetention action replacement then
      state
    else
      (actions.set action.id (replacement.getD action), retained ++ [action.id])

/-- The action map an update asks for, before its dependencies are checked. -/
def requestedActions (runtime : PlanRuntime) (update : PlanUpdate) (current : Option MutablePlan)
    : OrderedMap String PlanAction :=
  let stored : OrderedMap String PlanAction := match update, current with
    | .delta .., some plan =>
        .ofList (plan.nodes.entries.map fun (id, ref) => (id, (runtime.node ref).action))
    | _, _ => .empty
  let kept := match update with
    | .delta _ _ _ _ remove => remove.foldl OrderedMap.delete stored
    | .proposal .. => stored
  let actions := update.upserted.foldl (fun actions action => actions.set action.id action) kept
  match update, current with
  | .proposal id _ _ _ true, some plan =>
      (((runtime.graph plan.graph).ordered.getD []).foldl (runtime.retainStep id)
        (actions, [])).1
  | _, _ => actions

/-- What one dependency asks for, as action ids. A cross-plan parent is a leaf, but it must
be another plan's and resolve now.
-/
def dependencyTarget (runtime : PlanRuntime) (id : String)
    (actions : OrderedMap String PlanAction) (dependency : PlanDependency)
    : List (Option String) :=
  match dependency.pin with
  | some pin =>
      if pin.proposalID ≠ id ∧ (runtime.parent? id dependency).isSome then [] else [none]
  | none => [(actions.get? dependency.actionID).map PlanAction.id]

/-- The dependencies of a requested action, by action id. -/
def actionDependencies (runtime : PlanRuntime) (id : String)
    (actions : OrderedMap String PlanAction) (actionID : String)
    : List (Option String) :=
  (((actions.get? actionID).map PlanAction.dependsOn).getD []).flatMap
    (runtime.dependencyTarget id actions)

/-- Apply an owned update. -/
def applyOwned (runtime : PlanRuntime) (update : PlanUpdate) (anchorDecisionSeq : Number)
    : PlanRuntime × UpdateResult :=
  let id := update.planID
  let current := runtime.plan? id
  let isDelta := match update with
    | .delta .. => true
    | .proposal .. => false
  if isDelta && current.isNone then
    (runtime, .rejected .proposalMissing)
  else if current.any (·.source ≠ update.source) then
    (runtime, .rejected .sourceMismatch)
  else if current.any (update.revision ≤ ·.revision) then
    (runtime, .rejected .staleRevision)
  else
    let actions := runtime.requestedActions update current
    let dependencies := runtime.actionDependencies id actions
    match dependencyOrder (searchFuel actions.keys dependencies) actions.keys dependencies with
    | .finished order =>
        runtime.commit
          {
            id
            source := update.source
            revision := update.revision
            actions
            upserted := update.upserted
            ordered := order.filterMap actions.get?
            anchorDecisionSeq
          }
    | _ => (runtime, .rejected .invalidDependency)

/-- An update as it reaches `apply`: still to be checked, or owned since its handoff. -/
inductive HandedUpdate where
  | offered (update : OfferedUpdate)
  | owned (update : PlanUpdate)

def apply (runtime : PlanRuntime) (update : HandedUpdate) (anchorDecisionSeq : Number)
    : PlanRuntime × UpdateResult :=
  match update with
  | .owned update => runtime.applyOwned update anchorDecisionSeq
  | .offered update =>
      match capture update with
      | .error reason => (runtime, .rejected reason)
      | .ok owned => runtime.applyOwned owned anchorDecisionSeq

end PlanRuntime

end SpeculativeAction
