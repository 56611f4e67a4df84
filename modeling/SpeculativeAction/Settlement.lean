import SpeculativeAction.Numbers

/-! Shared settlement vocabulary: causes, identities and the outcomes learned from. -/

namespace SpeculativeAction

inductive ResolutionStage where
  | source | plan | admission | execution | matching | authorization | freshness
  | compatibility | projection | commit | retention | control
deriving DecidableEq, Repr

/-- Machine-readable classification of an outcome. -/
structure ResolutionCause where
  stage : ResolutionStage
  code : String
  detail : Option String := none
deriving DecidableEq, Repr

/-- Identity of one materialized plan action. `operation` is the optional kind. -/
structure PlanActionIdentity where
  operation : Bool
  id : String
  source : String
  proposalID : String
  actionID : String
deriving DecidableEq, Repr

abbrev PredictionIdentity := PlanActionIdentity

/-- Identity of one concrete Actor call. -/
structure ActorActionIdentity where
  operation : Bool := false
  id : String
  sequence : Number
  decisionSequence : Option Number := none
  turnID : String
deriving DecidableEq, Repr

/-- Two records name the same Actor call; the decision sequence is not compared. -/
def sameActorAction (left right : ActorActionIdentity) : Bool :=
  left.operation == right.operation && left.id == right.id
    && left.sequence.strictEq right.sequence && left.turnID == right.turnID

/-- Actor tool batch of a call, defaulting to its sequence. -/
def actorDecisionSequence (action : ActorActionIdentity) : ℕ :=
  (action.decisionSequence.getD action.sequence).nonNegativeCount

/-- How a speculative key relates to the Actor's key. -/
inductive ActionKeyMatch where
  | exact
  | projected (distance : Number) (projector : String)
  | inputs (distance : Number)
deriving DecidableEq, Repr

inductive PredictionAdoption where
  | adopted (candidateID : String)
  | rejected (candidateID : Option String) (cause : ResolutionCause)
deriving DecidableEq, Repr

/-- What the Actor did about one prediction, when it was observed. -/
inductive PredictionMatch where
  | missed
  | matched (relation : ActionKeyMatch) (adoption : PredictionAdoption)
deriving DecidableEq, Repr

inductive PredictionOutcome where
  | unobserved (cause : ResolutionCause)
  | observed (actorAction : ActorActionIdentity) (outcome : PredictionMatch)
deriving DecidableEq, Repr

structure PredictionSettlement where
  prediction : PredictionIdentity
  outcome : PredictionOutcome
deriving DecidableEq, Repr

/-- The Actor call whose match settled the prediction, if it was matched. -/
def PredictionSettlement.matchedAction? (settlement : PredictionSettlement)
    : Option ActorActionIdentity :=
  match settlement.outcome with
  | .observed actorAction (.matched _ _) => some actorAction
  | _ => none

/-- Whether the settlement is an observed match. -/
def predictionMatched (settlement : PredictionSettlement) : Bool :=
  settlement.matchedAction?.isSome

structure PredictionLearning where
  isMatch : Option Bool
  adopted : Option Bool
deriving DecidableEq, Repr

/-- Eligible learning samples of a settlement, with adoption overridden by `served`. -/
def predictionLearning (settlement : PredictionSettlement) (served : Option Bool := none)
    : PredictionLearning :=
  let isMatch : Option Bool := match settlement.outcome with
    | .unobserved _ => none
    | .observed _ .missed => some false
    | .observed _ (.matched _ _) => some true
  let adoptedMatch : Bool := match settlement.outcome with
    | .observed _ (.matched _ (.adopted _)) => true
    | _ => false
  let adopted := served.getD adoptedMatch
  let hit := isMatch.getD false
  {
    isMatch := if hit || !adopted then isMatch else none
    adopted := if adopted || hit then some adopted else none
  }

end SpeculativeAction
