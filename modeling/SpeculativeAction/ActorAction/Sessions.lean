import SpeculativeAction.ActorAction.Model
import SpeculativeAction.PlanRuntime.Settling

/-! A session's plan and its Actor actions, joined by the callbacks that a match defers to
the end of an action's consumption.
-/

namespace SpeculativeAction

open SpeculativeAction.Library

section Events

/-- An action with the opportunities it claimed and the callbacks of its matches that have
not run yet, each with the opportunities it confirms.
-/
structure Actor where
  action : ActorAction
  claims : List NodeRef := []
  deferred : List (List NodeRef) := []

structure Session where
  plan : PlanRuntime
  actors : List Actor

namespace Session

def start : Session := ⟨.create, []⟩

/-- What can happen in a session. Whoever else claims predictions confirms them itself, by an
operation on the plan.
-/
inductive Event where
  | plan (op : PlanRuntime.Op)
  | arrived (identity : ActorActionIdentity) (tool : String) (actionKeyHash : Option String)
      (fallback : ResolutionCause)
  | claimMatch (index : ℕ) (proposalID actionID identityID : String) (relation : ActionKeyMatch)
  | matched (index : ℕ) (selected : List NodeRef)
  | call (index : ℕ) (called : ActorAction.Call)
  | consumed (index callback : ℕ)

/-- Whether an operation on the plan is one that others than the actions make: the plan is
not cleared, and what an action claimed is not confirmed under its identity.
-/
def admits (session : Session) (op : PlanRuntime.Op) : Bool :=
  match op with
  | .clear => false
  | .confirm ref actorAction _ =>
      !session.actors.any fun actor =>
        actor.claims.contains ref && sameActorAction actor.action.identity actorAction
  | _ => true

def confirmPredictions (plan : PlanRuntime) (claimed : List NodeRef)
    (actorAction : ActorActionIdentity) (adoption : PredictionAdoption)
    : PlanRuntime :=
  claimed.foldl (fun plan ref => (plan.confirm ref actorAction adoption).1) plan

def setActor (session : Session) (index : ℕ) (actor : Actor) : Session :=
  { session with actors := session.actors.set index actor }

/-- The action claims one prediction for its match. -/
def claimMatch (session : Session) (index : ℕ) (actor : Actor)
    (proposalID actionID identityID : String) (relation : ActionKeyMatch)
    : Session :=
  let (plan, claimed) :=
    session.plan.claimMatch proposalID actionID identityID actor.action.identity relation
  { session with plan }.setActor index { actor with claims := actor.claims ++ claimed.toList }

/-- The action matches some of its claims. -/
def matched (session : Session) (index : ℕ) (actor : Actor) (selected : List NodeRef) : Session :=
  let claimed := selected.filter actor.claims.contains
  session.setActor index {
    actor with
    action :=
      actor.action.matchPredictions
        (claimed.map fun ref => (session.plan.node ref).opportunity.identity)
    deferred := actor.deferred ++ [claimed]
  }

/-- A deferred callback runs once, some time after the consumption has finished. -/
def consumed (session : Session) (index : ℕ) (actor : Actor) (callback : ℕ) : Session :=
  match actor.action.consumption, actor.deferred[callback]? with
  | some _, some claimed =>
      setActor
        {
          session with
          plan :=
            confirmPredictions session.plan claimed actor.action.identity actor.action.adoption
        }
        index { actor with deferred := actor.deferred.eraseIdx callback }
  | _, _ => session

def step (session : Session) (event : Event) : Session :=
  match event with
  | .plan op => if session.admits op then { session with plan := session.plan.step op } else session
  | .arrived identity tool actionKeyHash fallback =>
      {
        session with
        actors :=
          session.actors ++ [⟨{ identity, tool, actionKeyHash, fallback := ⟨fallback, none⟩ }, [], []⟩]
      }
  | .claimMatch index proposalID actionID identityID relation =>
      match session.actors[index]? with
      | some actor => session.claimMatch index actor proposalID actionID identityID relation
      | none => session
  | .matched index selected =>
      match session.actors[index]? with
      | some actor => session.matched index actor selected
      | none => session
  | .call index called =>
      match session.actors[index]? with
      | some actor => session.setActor index { actor with action := actor.action.call called }
      | none => session
  | .consumed index callback =>
      match session.actors[index]? with
      | some actor => session.consumed index actor callback
      | none => session

/-- The session after some events. -/
def afterEvents (events : List Event) : Session := runAll step start events

def opportunity (session : Session) (ref : NodeRef) : PredictionOpportunity :=
  (session.plan.node ref).opportunity

/-- Whether a prediction object has been made. -/
def predicts (session : Session) (ref : NodeRef) : Prop := ref < session.plan.nodeHeap.size

end Session

end Events

end SpeculativeAction
