import SpeculativeAction.Library.OrderedMap
import SpeculativeAction.Settlement
import SpeculativeAction.TaskTiming.Model

/-! One Actor call from matching to settlement: the committed selection or the fallback that
provides its result, and the predictions it matched.
-/

namespace SpeculativeAction

open SpeculativeAction.Library

structure CandidateRejection where
  candidateID : String
  relation : ActionKeyMatch
  cause : ResolutionCause
deriving DecidableEq, Repr

/-- Who provided the result of a call. -/
inductive ActorActionProvider where
  | speculative (candidateID : String) (relation : ActionKeyMatch)
      (toolExecution : TaskTiming.Interval)
  | preview (candidateID : String) (durationMs : ℚ) (isError : Bool)
      (toolExecution : TaskTiming.Interval)
  | fallback (cause : ResolutionCause) (candidateID : Option String) (durationMs : ℚ)
      (isError : Bool) (toolExecution : TaskTiming.Interval)

def ActorActionProvider.isSpeculative : ActorActionProvider → Bool
  | .speculative .. => true
  | _ => false

def ActorActionProvider.isFallback : ActorActionProvider → Bool
  | .fallback .. => true
  | _ => false

structure ActorActionSettlement where
  actorAction : ActorActionIdentity
  tool : String
  actionKeyHash : Option String
  matchedPredictions : List PredictionIdentity
  rejections : List CandidateRejection
  provider : ActorActionProvider

/-- The parts of a selection that its settlement reads. -/
structure ActorCandidateSelection where
  candidateID : String
  relation : ActionKeyMatch
  toolExecution : TaskTiming.Interval

inductive ActorActionState where
  | matching
  | selected (value : ActorCandidateSelection)
  | awaitingFallback
  | settled (value : ActorActionSettlement)

structure ActorActionFallback where
  cause : ResolutionCause
  candidateID : Option String := none
deriving DecidableEq, Repr

/-- `consumption` holds what the promise of that name was resolved with, once it was. -/
structure ActorAction where
  identity : ActorActionIdentity
  tool : String
  actionKeyHash : Option String := none
  rejections : List CandidateRejection := []
  state : ActorActionState := .matching
  fallback : ActorActionFallback
  matchedPredictions : List PredictionIdentity := []
  consumption : Option (List String) := none

namespace ActorAction

variable (action : ActorAction)

def settlement : Option ActorActionSettlement :=
  match action.state with
  | .settled settlement => some settlement
  | _ => none

def selection : Option ActorCandidateSelection :=
  match action.state with
  | .selected selection => some selection
  | _ => none

/-- An empty candidate id counts as none. -/
def setFallback (failure : ResolutionCause) (candidateID : Option String := none) : ActorAction :=
  match action.state with
  | .matching => { action with fallback := ⟨failure, candidateID.filter (· ≠ "")⟩ }
  | _ => action

def rejectCandidate (candidateID : String) (relation : ActionKeyMatch) (failure : ResolutionCause)
    : ActorAction :=
  match action.state with
  | .matching =>
      let rejected : CandidateRejection := ⟨candidateID, relation, failure⟩
      setFallback { action with rejections := action.rejections ++ [rejected] } failure
        (some candidateID)
  | _ => action

def select (selection : ActorCandidateSelection) : ActorAction :=
  match action.state with
  | .matching => { action with state := .selected selection }
  | _ => action

private def finish (provider : ActorActionProvider) : ActorAction :=
  {
    action with
    state := .settled {
      actorAction := action.identity
      tool := action.tool
      actionKeyHash := action.actionKeyHash
      matchedPredictions := action.matchedPredictions
      rejections := action.rejections
      provider
    }
  }

inductive SelectionProvider where
  | speculative
  | preview
deriving DecidableEq, Repr

def settleSelection (provider : SelectionProvider) : ActorAction :=
  match action.state with
  | .selected selected =>
      let toolExecution := selected.toolExecution
      action.finish <| match provider with
        | .preview =>
            .preview selected.candidateID (toolExecution.completedAt - toolExecution.startedAt)
              false toolExecution
        | .speculative => .speculative selected.candidateID selected.relation toolExecution
  | _ => action

/-- Remember the matched predictions, each id once. -/
def matchPredictions (predictions : List PredictionIdentity) : ActorAction :=
  {
    action with
    matchedPredictions :=
      (OrderedMap.ofList (predictions.map fun prediction => (prediction.id, prediction))).values
  }

/-- What a match tells its predictions when its deferred callback runs. -/
def adoption : PredictionAdoption :=
  match action.settlement.map ActorActionSettlement.provider with
  | some (.speculative candidateID ..) => .adopted candidateID
  | some (.preview candidateID ..) =>
      .rejected (some candidateID) ⟨.control, "actor_preview_provider", none⟩
  | _ => .rejected action.fallback.candidateID action.fallback.cause

def deferToFallback : ActorAction :=
  match action.state with
  | .matching => { action with state := .awaitingFallback }
  | _ => action

def settleActor (toolExecution : TaskTiming.Interval) (isError : Bool)
    : ActorAction × Option ActorActionSettlement :=
  match action.state with
  | .awaitingFallback =>
      let next := action.finish <|
        .fallback action.fallback.cause action.fallback.candidateID
          (toolExecution.completedAt - toolExecution.startedAt) isError toolExecution
      (next, next.settlement)
  | _ => (action, none)

/-- A promise is resolved once. -/
def finishConsumption (reused : List String := []) : ActorAction :=
  { action with consumption := some (action.consumption.getD reused) }

/-- Whether the call was settled by a speculative result. -/
def settledSpeculative : Bool :=
  (action.settlement.map ActorActionSettlement.provider).any ActorActionProvider.isSpeculative

/-- One call of a method that is not about matching. -/
inductive Call where
  | setFallback (failure : ResolutionCause) (candidateID : Option String)
  | rejectCandidate (candidateID : String) (relation : ActionKeyMatch) (failure : ResolutionCause)
  | select (selection : ActorCandidateSelection)
  | settleSelection (provider : SelectionProvider)
  | deferToFallback
  | settleActor (toolExecution : TaskTiming.Interval) (isError : Bool)
  | finishConsumption (reused : List String)

def call (called : Call) : ActorAction :=
  match called with
  | .setFallback failure candidateID => action.setFallback failure candidateID
  | .rejectCandidate candidateID relation failure =>
      action.rejectCandidate candidateID relation failure
  | .select selection => action.select selection
  | .settleSelection provider => action.settleSelection provider
  | .deferToFallback => action.deferToFallback
  | .settleActor toolExecution isError => (action.settleActor toolExecution isError).1
  | .finishConsumption reused => action.finishConsumption reused

section Laws

variable {action}

theorem settlement_eq_some {settlement : ActorActionSettlement}
    : action.settlement = some settlement ↔ action.state = .settled settlement := by
  unfold ActorAction.settlement
  cases action.state <;> simp

/-- What a call can do to the state of an action; everything else keeps it. -/
inductive Moved (before : ActorAction) : ActorActionState → Prop
  | kept : Moved before before.state
  | selected (selection : ActorCandidateSelection) (matching : before.state = .matching)
    : Moved before (.selected selection)
  | awaiting (matching : before.state = .matching) : Moved before .awaitingFallback
  | settled (settlement : ActorActionSettlement)
      (told : settlement.matchedPredictions = before.matchedPredictions)
      (provided
        : (∃ selection, before.state = .selected selection)
            ∧ settlement.provider.isFallback = false
          ∨ before.state = .awaitingFallback ∧ settlement.provider.isFallback = true)
    : Moved before (.settled settlement)

/-- Every call is such a move, by cases on the method and the state. -/
theorem call_moved (action : ActorAction) (called : Call)
    : Moved action (action.call called).state := by
  cases called with
  | setFallback failure candidateID =>
      cases state : action.state <;> simp only [call, setFallback, state] <;> exact state ▸ .kept
  | rejectCandidate candidateID relation failure =>
      cases state : action.state <;> simp only [call, rejectCandidate, setFallback, state] <;>
        exact state ▸ .kept
  | select selection =>
      cases state : action.state with
      | matching =>
          simp only [call, select, state]
          exact .selected selection state
      | _ => simp only [call, select, state]; exact state ▸ .kept
  | settleSelection provider =>
      cases state : action.state with
      | selected selection =>
          simp only [call, settleSelection, state]
          refine .settled _ rfl (.inl ⟨⟨selection, state⟩, ?_⟩)
          cases provider <;> rfl
      | _ => simp only [call, settleSelection, state]; exact state ▸ .kept
  | deferToFallback =>
      cases state : action.state with
      | matching =>
          simp only [call, deferToFallback, state]
          exact .awaiting state
      | _ => simp only [call, deferToFallback, state]; exact state ▸ .kept
  | settleActor toolExecution isError =>
      cases state : action.state with
      | awaitingFallback =>
          simp only [call, settleActor, state]
          exact .settled _ rfl (.inr ⟨state, rfl⟩)
      | _ => simp only [call, settleActor, state]; exact state ▸ .kept
  | finishConsumption reused => exact .kept

/-- Calls keep the identity of an action and the predictions it lists. -/
theorem call_identity (action : ActorAction) (called : Call)
    : (action.call called).identity = action.identity := by
  cases called <;> cases state : action.state <;>
    simp [call, setFallback, rejectCandidate, select, settleSelection, deferToFallback,
      settleActor, finishConsumption, finish, state]

theorem call_matchedPredictions (action : ActorAction) (called : Call)
    : (action.call called).matchedPredictions = action.matchedPredictions := by
  cases called <;> cases state : action.state <;>
    simp [call, setFallback, rejectCandidate, select, settleSelection, deferToFallback,
      settleActor, finishConsumption, finish, state]

/-- A prediction that is listed was offered to the match. -/
theorem mem_matchPredictions {predictions : List PredictionIdentity}
    {prediction : PredictionIdentity}
    (listed : prediction ∈ (action.matchPredictions predictions).matchedPredictions)
    : prediction ∈ predictions := by
  obtain ⟨id, found⟩ := OrderedMap.mem_values_iff.mp listed
  have each : OrderedMap.Forall (fun _ value => value ∈ predictions)
      (OrderedMap.ofList (predictions.map fun prediction => (prediction.id, prediction))) := by
    refine OrderedMap.Forall.setAll _ OrderedMap.Forall.empty fun pair member => ?_
    obtain ⟨offered, among, rfl⟩ := List.mem_map.mp member
    exact among
  exact each id prediction found

/-- An action adopts its predictions when its provider is speculative. -/
theorem adoption_adopted_iff
    : (∃ candidateID, action.adoption = .adopted candidateID)
      ↔ action.settledSpeculative = true := by
  unfold adoption settledSpeculative
  cases action.settlement with
  | none => simp
  | some settlement =>
      cases provider : settlement.provider <;> simp [provider, ActorActionProvider.isSpeculative]

end Laws

end ActorAction

end SpeculativeAction
