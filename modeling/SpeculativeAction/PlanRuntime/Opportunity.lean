import SpeculativeAction.Settlement

/-! The exactly-once owner of one prediction's Actor-visible outcome. -/

namespace SpeculativeAction

inductive PredictionOpportunityState where
  | pending
  | matching (actorAction : ActorActionIdentity) (relation : ActionKeyMatch)
  | settled (settlement : PredictionSettlement)
deriving DecidableEq

structure PredictionOpportunity where
  identity : PredictionIdentity
  state : PredictionOpportunityState := .pending
deriving DecidableEq

namespace PredictionOpportunity

def settlement (opportunity : PredictionOpportunity) : Option PredictionSettlement :=
  match opportunity.state with
  | .settled settlement => some settlement
  | _ => none

def isPending (opportunity : PredictionOpportunity) : Bool :=
  match opportunity.state with
  | .pending => true
  | _ => false

def isSettled (opportunity : PredictionOpportunity) : Bool := opportunity.settlement.isSome

private def finish (opportunity : PredictionOpportunity) (outcome : PredictionOutcome)
    : PredictionOpportunity :=
  { opportunity with state := .settled ⟨opportunity.identity, outcome⟩ }

def claim (opportunity : PredictionOpportunity) (actorAction : ActorActionIdentity)
    (relation : ActionKeyMatch)
    : PredictionOpportunity × Bool :=
  match opportunity.state with
  | .pending => ({ opportunity with state := .matching actorAction relation }, true)
  | _ => (opportunity, false)

/-- Only the claiming call settles a claim, with the relation it was claimed under. -/
def confirm (opportunity : PredictionOpportunity) (actorAction : ActorActionIdentity)
    (adoption : PredictionAdoption)
    : PredictionOpportunity × Option PredictionSettlement :=
  match opportunity.state with
  | .matching claimed relation =>
      if sameActorAction claimed actorAction then
        let next := opportunity.finish (.observed claimed (.matched relation adoption))
        (next, next.settlement)
      else
        (opportunity, none)
  | _ => (opportunity, none)

def miss (opportunity : PredictionOpportunity) (actorAction : ActorActionIdentity)
    : PredictionOpportunity × Option PredictionSettlement :=
  match opportunity.state with
  | .pending =>
      let next := opportunity.finish (.observed actorAction .missed)
      (next, next.settlement)
  | _ => (opportunity, none)

def unobserve (opportunity : PredictionOpportunity) (cause : ResolutionCause)
    : PredictionOpportunity × Option PredictionSettlement :=
  match opportunity.state with
  | .pending =>
      let next := opportunity.finish (.unobserved cause)
      (next, next.settlement)
  | _ => (opportunity, none)

/-- The Actor call that matched the prediction, once it is settled so. -/
def matchedAction? (opportunity : PredictionOpportunity) : Option ActorActionIdentity :=
  opportunity.settlement.bind PredictionSettlement.matchedAction?

section

variable (opportunity : PredictionOpportunity) (actorAction : ActorActionIdentity)

/-- The outcomes of an opportunity keep its identity. -/
@[simp] theorem claim_identity (relation : ActionKeyMatch)
    : (opportunity.claim actorAction relation).1.identity = opportunity.identity := by
  cases state : opportunity.state <;> simp [claim, state]

@[simp] theorem confirm_identity (adoption : PredictionAdoption)
    : (opportunity.confirm actorAction adoption).1.identity = opportunity.identity := by
  cases state : opportunity.state <;> simp only [confirm, state]
  split <;> rfl

@[simp] theorem miss_identity
    : (opportunity.miss actorAction).1.identity = opportunity.identity := by
  cases state : opportunity.state <;> simp [miss, finish, state]

@[simp] theorem unobserve_identity (cause : ResolutionCause)
    : (opportunity.unobserve cause).1.identity = opportunity.identity := by
  cases state : opportunity.state <;> simp [unobserve, finish, state]

/-- Claims, misses and unobserved outcomes never make a match. -/
@[simp] theorem claim_matchedAction? (relation : ActionKeyMatch)
    : (opportunity.claim actorAction relation).1.matchedAction? = opportunity.matchedAction? := by
  cases state : opportunity.state <;>
    simp [claim, matchedAction?, settlement, state]

@[simp] theorem miss_matchedAction?
    : (opportunity.miss actorAction).1.matchedAction? = opportunity.matchedAction? := by
  cases state : opportunity.state <;>
    simp [miss, finish, matchedAction?, settlement, state, PredictionSettlement.matchedAction?]

@[simp] theorem unobserve_matchedAction? (cause : ResolutionCause)
    : (opportunity.unobserve cause).1.matchedAction? = opportunity.matchedAction? := by
  cases state : opportunity.state <;>
    simp [unobserve, finish, matchedAction?, settlement, state,
      PredictionSettlement.matchedAction?]

/-- Only a pending opportunity is claimed, missed or left unobserved. -/
theorem claim_of_not_pending (relation : ActionKeyMatch) (busy : opportunity.isPending = false)
    : (opportunity.claim actorAction relation).1 = opportunity := by
  cases state : opportunity.state <;> simp_all [claim, isPending]

theorem miss_of_not_pending (busy : opportunity.isPending = false)
    : (opportunity.miss actorAction).1 = opportunity := by
  cases state : opportunity.state <;> simp_all [miss, isPending]

theorem unobserve_of_not_pending (cause : ResolutionCause) (busy : opportunity.isPending = false)
    : (opportunity.unobserve cause).1 = opportunity := by
  cases state : opportunity.state <;> simp_all [unobserve, isPending]

/-- A confirmation settles an opportunity that the same Actor call claimed, and no other. -/
theorem confirm_settles (adoption : PredictionAdoption)
    : opportunity.confirm actorAction adoption = (opportunity, none)
      ∨ ∃ claimed relation,
          opportunity.state = .matching claimed relation
          ∧ sameActorAction claimed actorAction = true
          ∧ (opportunity.confirm actorAction adoption).1.state
            = .settled ⟨opportunity.identity, .observed claimed (.matched relation adoption)⟩
          ∧ (opportunity.confirm actorAction adoption).2
            = some ⟨opportunity.identity, .observed claimed (.matched relation adoption)⟩ := by
  cases state : opportunity.state with
  | pending => exact .inl (by simp [confirm, state])
  | settled settlement => exact .inl (by simp [confirm, state])
  | matching claimed relation =>
      by_cases same : sameActorAction claimed actorAction = true
      · exact .inr ⟨claimed, relation, rfl, same,
          by simp [confirm, state, same, finish, settlement]⟩
      · exact .inl (by simp [confirm, state, same])

end

end PredictionOpportunity

end SpeculativeAction
