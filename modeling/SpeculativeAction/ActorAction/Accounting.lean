import SpeculativeAction.ActorAction.Sessions

/-! Predictions and Actor actions are accounted for once: what each step of a session keeps
of every opportunity and every action, and from it what every run keeps.
-/

namespace SpeculativeAction

open SpeculativeAction.Library

section Opportunities

/-- The opportunity is claimed by the Actor call, or settled as its match. -/
def ClaimedBy (actorAction : ActorActionIdentity) (opportunity : PredictionOpportunity) : Prop :=
  (∃ relation, opportunity.state = .matching actorAction relation)
  ∨ ∃ prediction relation adoption,
      opportunity.state = .settled ⟨prediction, .observed actorAction (.matched relation adoption)⟩

theorem ClaimedBy.not_pending {actorAction : ActorActionIdentity}
    {opportunity : PredictionOpportunity} (claimed : ClaimedBy actorAction opportunity)
    : opportunity.isPending = false := by
  unfold PredictionOpportunity.isPending
  rcases claimed with ⟨relation, state⟩ | ⟨prediction, relation, adoption, state⟩ <;> rw [state]

namespace PlanRuntime

/-- What every operation keeps of the prediction objects made before it. -/
structure Progress (before after : PlanRuntime) : Prop where
  grown : before.nodeHeap.size ≤ after.nodeHeap.size
  identity
    : ∀ {ref},
        ref < before.nodeHeap.size
        → (after.node ref).opportunity.identity = (before.node ref).opportunity.identity
  settled
    : ∀ {ref settlement},
        ref < before.nodeHeap.size
        → (before.node ref).opportunity.state = .settled settlement
        → (after.node ref).opportunity = (before.node ref).opportunity
  claimed
    : ∀ {ref actorAction},
        ref < before.nodeHeap.size
        → ClaimedBy actorAction (before.node ref).opportunity
        → ClaimedBy actorAction (after.node ref).opportunity

theorem Progress.refl (runtime : PlanRuntime) : Progress runtime runtime :=
  ⟨le_rfl, fun _ => rfl, fun _ _ => rfl, fun _ claimed => claimed⟩

theorem Progress.trans {before middle after : PlanRuntime} (first : Progress before middle)
    (second : Progress middle after)
    : Progress before after where
  grown := first.grown.trans second.grown
  identity := fun below =>
    (second.identity (below.trans_le first.grown)).trans (first.identity below)
  settled := fun below settled => by
    have same := first.settled below settled
    rw [second.settled (below.trans_le first.grown) (same ▸ settled), same]
  claimed := fun below claimed =>
    second.claimed (below.trans_le first.grown) (first.claimed below claimed)

/-- Prediction objects are predicted for their own nodes and stand under unique ids. -/
structure Predicting (runtime : PlanRuntime) : Prop where
  coherent : Coherent runtime
  once : IssuedOnce runtime
  own
    : ∀ {ref},
        ref < runtime.nodeHeap.size
        → (runtime.node ref).opportunity.identity = (runtime.node ref).identity

theorem predicting_create : Predicting create where
  coherent := coherent_of_empty rfl
  once := ⟨fun below => absurd below (Nat.not_lt_zero _), fun below => absurd below (Nat.not_lt_zero _)⟩
  own := fun below => absurd below (Nat.not_lt_zero _)

/-- Two prediction objects with one id are the same object. -/
theorem Predicting.distinct {runtime : PlanRuntime} (predicting : Predicting runtime)
    {left right : NodeRef} (leftBelow : left < runtime.nodeHeap.size)
    (rightBelow : right < runtime.nodeHeap.size)
    (same
      : (runtime.node left).opportunity.identity.id = (runtime.node right).opportunity.identity.id)
    : left = right := by
  rw [predicting.own leftBelow, predicting.own rightBelow] at same
  exact predicting.once.distinct leftBelow rightBelow same

section Steps

variable {runtime : PlanRuntime} (predicting : Predicting runtime) (op : Op)

include predicting

/-- Objects are never removed; an update may add some. -/
theorem Predicting.grown : runtime.nodeHeap.size ≤ (runtime.step op).nodeHeap.size := by
  cases isLocal : op.isLocal with
  | true => exact (step_sameGraph runtime isLocal).nodeCount.ge
  | false =>
      cases op with
      | apply update anchorDecisionSeq =>
          rcases predicting.coherent.apply_cases update anchorDecisionSeq with
            ⟨reason, same⟩ | ⟨input, checked, -, -, same⟩
          · simp only [PlanRuntime.step, same]
            exact le_rfl
          · simp only [PlanRuntime.step, same]
            exact Accepted.grown ⟨predicting.coherent, checked, committed runtime input⟩
      | confirm ref actorAction adoption =>
          exact (confirm_sameGraph runtime ref actorAction adoption).nodeCount.ge
      | clear => exact le_rfl
      | _ => cases isLocal

theorem Predicting.progress : Progress runtime (runtime.step op) where
  grown := predicting.grown op
  identity := fun below => (predicting.coherent.moved op below).identity
  settled := fun below settled => (predicting.coherent.moved op below).of_settled settled
  claimed := fun below claimed => by
    have moved := predicting.coherent.moved op below
    rcases claimed with ⟨relation, matching⟩ | ⟨prediction, relation, adoption, settled⟩
    · rcases moved.of_matching matching with same | ⟨actorAction, adoption, -, -, settled⟩
      · exact same ▸ .inl ⟨relation, matching⟩
      · exact .inr ⟨_, relation, adoption, settled⟩
    · rw [moved.of_settled settled]
      exact .inr ⟨prediction, relation, adoption, settled⟩

/-- A new prediction object predicts its own node; the others keep both identities. -/
theorem Predicting.own_step {ref : NodeRef} (below : ref < (runtime.step op).nodeHeap.size)
    : ((runtime.step op).node ref).opportunity.identity = ((runtime.step op).node ref).identity := by
  have framed {after : PlanRuntime} (same : SameGraph MutableNode.placed runtime after)
      (below : ref < after.nodeHeap.size)
      : (after.node ref).opportunity.identity = (after.node ref).identity := by
    have placed := same.node ref
    rw [same.nodeCount] at below
    have opportunity : (after.node ref).opportunity.identity
        = (runtime.node ref).opportunity.identity :=
      congrArg (fun placed => placed.2.2) placed
    rw [opportunity, same.identity]
    exact predicting.own below
  cases isLocal : op.isLocal with
  | true =>
      exact framed ((step_sameGraph runtime isLocal).mono fun _ _ => MutableNode.placed_of_timed)
        below
  | false =>
      cases op with
      | apply update anchorDecisionSeq =>
          rcases predicting.coherent.apply_cases update anchorDecisionSeq with
            ⟨reason, same⟩ | ⟨input, checked, -, -, same⟩
          · simp only [PlanRuntime.step, same] at below ⊢
            exact predicting.own below
          · simp only [PlanRuntime.step, same] at below ⊢
            have accepted : Accepted runtime input (runtime.commit input).1 :=
              ⟨predicting.coherent, checked, committed runtime input⟩
            by_cases old : ref < runtime.nodeHeap.size
            · rw [accepted.opportunity_old old, accepted.identity_old old]
              exact predicting.own old
            · exact accepted.opportunity_fresh (Nat.not_lt.mp old) below
      | confirm other actorAction adoption =>
          exact framed (confirm_sameGraph runtime other actorAction adoption) below
      | clear => exact predicting.own below
      | _ => cases isLocal

theorem Predicting.step (keeps : op ≠ .clear) : Predicting (runtime.step op) where
  coherent := predicting.coherent.step op
  once := predicting.once.step predicting.coherent keeps
  own := predicting.own_step op

/-- A claim that succeeds takes a pending prediction object for the Actor call. -/
theorem Predicting.claimMatch (proposalID actionID identityID : String)
    (actorAction : ActorActionIdentity) (relation : ActionKeyMatch) (ref : NodeRef)
    (claimed
      : (runtime.claimMatch proposalID actionID identityID actorAction relation).2 = some ref)
    : ref < runtime.nodeHeap.size
      ∧ (runtime.node ref).opportunity.isPending = true
      ∧ ClaimedBy actorAction
          ((runtime.claimMatch proposalID actionID identityID actorAction relation).1.node
            ref).opportunity := by
  unfold PlanRuntime.claimMatch at claimed ⊢
  split at claimed
  · cases claimed
  · rename_i found current
    split at claimed
    · cases claimed
    · rename_i allowed
      have pending : (runtime.node found).opportunity.state = .pending := by
        cases state : (runtime.node found).opportunity.state <;>
          simp_all [isMatchable, PredictionOpportunity.isPending]
      simp only [PredictionOpportunity.claim, pending, ↓reduceIte, Option.some.injEq] at claimed
      subst claimed
      refine ⟨predicting.coherent.named.nodeRef current, ?_, .inl ⟨relation, ?_⟩⟩
      · simp [PredictionOpportunity.isPending, pending]
      · rw [if_neg allowed]
        dsimp only
        rw [opportunity_setOpportunity, if_pos rfl]
        simp [PredictionOpportunity.claim, pending]

end Steps

end PlanRuntime

end Opportunities

section Actors

variable {prediction : PredictionIdentity}

/-- The action was selected, or settled by its selection. -/
def SelectedOnce (action : ActorAction) : Prop :=
  (∃ selection, action.state = .selected selection)
  ∨ ∃ settlement, action.state = .settled settlement ∧ settlement.provider.isFallback = false

/-- What every step keeps of an action. -/
structure ActorAction.Progress (before after : ActorAction) : Prop where
  identity : after.identity = before.identity
  settled : ∀ {settlement}, before.state = .settled settlement → after.state = .settled settlement
  selected : SelectedOnce before → SelectedOnce after

theorem ActorAction.Progress.refl (action : ActorAction) : Progress action action :=
  ⟨rfl, fun settled => settled, fun selected => selected⟩

theorem ActorAction.Progress.trans {before middle after : ActorAction}
    (first : Progress before middle) (second : Progress middle after)
    : Progress before after :=
  ⟨second.identity.trans first.identity, fun settled => second.settled (first.settled settled),
    fun selected => second.selected (first.selected selected)⟩

theorem ActorAction.call_progress (action : ActorAction) (called : ActorAction.Call)
    : Progress action (action.call called) := by
  have moved := action.call_moved called
  refine ⟨action.call_identity called, fun {settlement} settled => ?_, fun selected => ?_⟩
  · generalize (action.call called).state = after at moved
    cases moved with
    | kept => exact settled
    | selected _ matching => exact nomatch settled.symm.trans matching
    | awaiting matching => exact nomatch settled.symm.trans matching
    | settled _ _ provided =>
        rcases provided with ⟨⟨_, selected⟩, -⟩ | ⟨awaiting, -⟩
        · exact nomatch settled.symm.trans selected
        · exact nomatch settled.symm.trans awaiting
  · unfold SelectedOnce
    generalize (action.call called).state = after at moved
    cases moved with
    | kept => exact selected
    | selected selection _ => exact .inl ⟨selection, rfl⟩
    | awaiting matching =>
        rcases selected with ⟨_, state⟩ | ⟨_, state, -⟩
        · exact nomatch state.symm.trans matching
        · exact nomatch state.symm.trans matching
    | settled settlement _ provided =>
        rcases provided with ⟨-, provider⟩ | ⟨awaiting, -⟩
        · exact .inr ⟨settlement, rfl, provider⟩
        · rcases selected with ⟨_, state⟩ | ⟨_, state, -⟩
          · exact nomatch state.symm.trans awaiting
          · exact nomatch state.symm.trans awaiting

/-- A prediction that an action lists, now or in its settlement. -/
def ActorAction.Lists (action : ActorAction) (prediction : PredictionIdentity) : Prop :=
  prediction ∈ action.matchedPredictions
  ∨ ∃ settlement, action.settlement = some settlement ∧ prediction ∈ settlement.matchedPredictions

/-- A call lists no further predictions. -/
theorem ActorAction.lists_of_call {action : ActorAction} {called : ActorAction.Call}
    (listed : (action.call called).Lists prediction)
    : action.Lists prediction := by
  rcases listed with field | ⟨settlement, settled, inside⟩
  · exact .inl (action.call_matchedPredictions called ▸ field)
  · rw [ActorAction.settlement_eq_some] at settled
    have moved := action.call_moved called
    rw [settled] at moved
    generalize after : ActorActionState.settled settlement = state at moved
    cases moved with
    | kept => exact .inr ⟨settlement, ActorAction.settlement_eq_some.mpr after.symm, inside⟩
    | selected => cases after
    | awaiting => cases after
    | settled other told _ =>
        cases after
        exact .inl (told ▸ inside)

/-- A match lists what it was offered, besides what the settlement already lists. -/
theorem ActorAction.lists_of_match {action : ActorAction} {predictions : List PredictionIdentity}
    (listed : (action.matchPredictions predictions).Lists prediction)
    : prediction ∈ predictions ∨ action.Lists prediction := by
  rcases listed with field | settled
  · exact .inl (ActorAction.mem_matchPredictions field)
  · exact .inr (.inr settled)

end Actors

namespace Session

section Invariant

variable {index : ℕ}

/-- What an action claimed is claimed for it alone, its callbacks confirm no more, and it
lists no other predictions.
-/
structure Wired (session : Session) : Prop where
  predicting : session.plan.Predicting
  claimed
    : ∀ {index : ℕ} {actor : Actor} {ref : NodeRef},
        session.actors[index]? = some actor
        → ref ∈ actor.claims
        → session.predicts ref ∧ ClaimedBy actor.action.identity (session.opportunity ref)
  apart
    : ∀ {first second : ℕ} {actor other : Actor} {ref : NodeRef},
        session.actors[first]? = some actor
        → session.actors[second]? = some other
        → ref ∈ actor.claims
        → ref ∈ other.claims
        → first = second
  deferred
    : ∀ {index : ℕ} {actor : Actor} {refs : List NodeRef},
        session.actors[index]? = some actor
        → refs ∈ actor.deferred
        → ∀ ref ∈ refs, ref ∈ actor.claims
  listed
    : ∀ {index : ℕ} {actor : Actor} {prediction : PredictionIdentity},
        session.actors[index]? = some actor
        → actor.action.Lists prediction
        → ∃ ref ∈ actor.claims, prediction = (session.opportunity ref).identity

/-- What every step keeps of the predictions and actions there were before it. -/
structure Progress (before after : Session) : Prop where
  plan : before.plan.Progress after.plan
  actor
    : ∀ {index : ℕ} {actor : Actor},
        before.actors[index]? = some actor
        → ∃ next : Actor, after.actors[index]? = some next ∧ actor.action.Progress next.action

theorem Progress.refl (session : Session) : Progress session session :=
  ⟨.refl _, fun here => ⟨_, here, .refl _⟩⟩

theorem Progress.trans {before middle after : Session} (first : Progress before middle)
    (second : Progress middle after)
    : Progress before after where
  plan := first.plan.trans second.plan
  actor := fun here => by
    obtain ⟨next, there, progress⟩ := first.actor here
    obtain ⟨last, found, further⟩ := second.actor there
    exact ⟨last, found, progress.trans further⟩

theorem wired_start : Wired start := by
  refine ⟨PlanRuntime.predicting_create, ?_, ?_, ?_, ?_⟩ <;> simp [start]

/-- Reading the actors after one of them changed. -/
theorem actors_setActor {session : Session} {position : ℕ} {actor next other : Actor}
    (here : session.actors[index]? = some actor)
    (found : (session.setActor index next).actors[position]? = some other)
    : position = index ∧ other = next
      ∨ position ≠ index ∧ session.actors[position]? = some other := by
  have inside := (List.getElem?_eq_some_iff.mp here).1
  simp only [setActor, List.getElem?_set] at found
  split at found
  · rename_i same
    exact .inl ⟨same.symm, (Option.some.inj found).symm⟩
  · rename_i different
    exact .inr ⟨fun same => different same.symm, found⟩

theorem progress_setActor {session : Session} {plan : PlanRuntime} {actor next : Actor}
    (here : session.actors[index]? = some actor) (grown : session.plan.Progress plan)
    (progress : actor.action.Progress next.action)
    : Progress session (setActor { session with plan } index next) where
  plan := grown
  actor := fun {position other} found => by
    have inside := (List.getElem?_eq_some_iff.mp here).1
    simp only [setActor, List.getElem?_set]
    split
    · rename_i same
      subst same
      obtain rfl := Option.some.inj (here.symm.trans found)
      exact ⟨next, rfl, progress⟩
    · exact ⟨other, found, .refl _⟩

variable {session : Session}

/-- The plan moves on and no actor changes. -/
theorem Wired.plan (wired : Wired session) {plan : PlanRuntime}
    (progress : session.plan.Progress plan) (predicting : plan.Predicting)
    : Wired { session with plan } where
  predicting := predicting
  claimed := fun here claims => by
    obtain ⟨below, claimed⟩ := wired.claimed here claims
    exact ⟨Nat.lt_of_lt_of_le below progress.grown, progress.claimed below claimed⟩
  apart := wired.apart
  deferred := wired.deferred
  listed := fun here lists => by
    obtain ⟨ref, claims, same⟩ := wired.listed here lists
    exact ⟨ref, claims, same.trans (progress.identity (wired.claimed here claims).1).symm⟩

/-- One actor changes. -/
theorem Wired.setActor (wired : Wired session) {actor next : Actor}
    (here : session.actors[index]? = some actor)
    (claimed
      : ∀ ref ∈ next.claims,
          session.predicts ref ∧ ClaimedBy next.action.identity (session.opportunity ref))
    (apart
      : ∀ ref ∈ next.claims,
          ∀ {position : ℕ} {other : Actor},
            position ≠ index → session.actors[position]? = some other → ref ∉ other.claims)
    (deferred : ∀ refs ∈ next.deferred, ∀ ref ∈ refs, ref ∈ next.claims)
    (listed
      : ∀ prediction,
          next.action.Lists prediction
          → ∃ ref ∈ next.claims, prediction = (session.opportunity ref).identity)
    : Wired (session.setActor index next) where
  predicting := wired.predicting
  claimed := fun found claims => by
    rcases actors_setActor here found with ⟨-, rfl⟩ | ⟨-, old⟩
    · exact claimed _ claims
    · exact wired.claimed old claims
  apart := fun {first second _ _ _} found found' claims claims' => by
    rcases actors_setActor here found with ⟨same, rfl⟩ | ⟨elsewhere, old⟩ <;>
      rcases actors_setActor here found' with ⟨same', rfl⟩ | ⟨elsewhere', old'⟩
    · exact same.trans same'.symm
    · exact absurd claims' (apart _ claims elsewhere' old')
    · exact absurd claims (apart _ claims' elsewhere old)
    · exact wired.apart old old' claims claims'
  deferred := fun found member => by
    rcases actors_setActor here found with ⟨-, rfl⟩ | ⟨-, old⟩
    · exact deferred _ member
    · exact wired.deferred old member
  listed := fun found lists => by
    rcases actors_setActor here found with ⟨-, rfl⟩ | ⟨-, old⟩
    · exact listed _ lists
    · exact wired.listed old lists

/-- An actor that changes neither its identity nor its claims. -/
theorem Wired.setAction (wired : Wired session) {actor next : Actor}
    (here : session.actors[index]? = some actor)
    (identity : next.action.identity = actor.action.identity) (claims : next.claims = actor.claims)
    (deferred : ∀ refs ∈ next.deferred, ∀ ref ∈ refs, ref ∈ actor.claims)
    (listed
      : ∀ prediction,
          next.action.Lists prediction
          → ∃ ref ∈ actor.claims, prediction = (session.opportunity ref).identity)
    : Wired (session.setActor index next) := by
  refine wired.setActor here ?_ ?_ ?_ ?_
  · rw [identity, claims]
    exact fun ref member => wired.claimed here member
  · rw [claims]
    exact fun ref member position other elsewhere there again =>
      elsewhere (wired.apart there here again member)
  · rw [claims]
    exact deferred
  · rw [claims]
    exact listed

end Invariant

section Steps

variable {actor : Actor}

/-- Confirmations of one match, one after the other. -/
theorem confirmPredictions_progress {plan : PlanRuntime} (predicting : plan.Predicting)
    (claimed : List NodeRef) (actorAction : ActorActionIdentity) (adoption : PredictionAdoption)
    : plan.Progress (confirmPredictions plan claimed actorAction adoption)
      ∧ (confirmPredictions plan claimed actorAction adoption).Predicting := by
  unfold confirmPredictions
  induction claimed generalizing plan with
  | nil => exact ⟨.refl plan, predicting⟩
  | cons ref rest ih =>
      have first := predicting.progress (.confirm ref actorAction adoption)
      obtain ⟨later, kept⟩ := ih (predicting.step (.confirm ref actorAction adoption) nofun)
      exact ⟨first.trans later, kept⟩

/-- A claimed prediction among them is settled as a match of the claiming call, if that is
the confirming one.
-/
theorem confirmPredictions_matching {plan : PlanRuntime} (predicting : plan.Predicting)
    {claimed : List NodeRef} {actorAction holder : ActorActionIdentity}
    {adoption : PredictionAdoption} {relation : ActionKeyMatch} {ref : NodeRef}
    (below : ref < plan.nodeHeap.size)
    (matching : (plan.node ref).opportunity.state = .matching holder relation)
    : ((confirmPredictions plan claimed actorAction adoption).node ref).opportunity
        = (plan.node ref).opportunity
      ∨ ref ∈ claimed
        ∧ sameActorAction holder actorAction = true
        ∧ ((confirmPredictions plan claimed actorAction adoption).node ref).opportunity.state
          = .settled ⟨(plan.node ref).opportunity.identity,
              .observed holder (.matched relation adoption)⟩ := by
  induction claimed generalizing plan with
  | nil => exact .inl rfl
  | cons first rest ih =>
      have progress := predicting.progress (.confirm first actorAction adoption)
      have next := predicting.step (.confirm first actorAction adoption) nofun
      have still := below.trans_le progress.grown
      rcases (predicting.coherent.moved (.confirm first actorAction adoption) below).of_matching
        matching with same | ⟨called, told, confirmed, sameAction, settled⟩
      · rcases ih next still (same ▸ matching) with kept | ⟨later, sameAction, settled⟩
        · exact .inl (kept.trans same)
        · refine .inr ⟨List.mem_cons_of_mem _ later, sameAction, ?_⟩
          rw [← progress.identity below]
          exact settled
      · obtain ⟨rfl, rfl, rfl⟩ := PlanRuntime.Op.confirm.inj confirmed
        refine .inr ⟨List.mem_cons_self, sameAction, ?_⟩
        have later := (confirmPredictions_progress next rest actorAction adoption).1
        have stays := later.settled still settled
        exact (congrArg PredictionOpportunity.state stays).trans settled

variable {session : Session}

/-- A new actor comes after the others. -/
theorem getElem?_append_new {actors : List Actor} {position : ℕ} {new : Actor}
    (found : (actors ++ [new])[position]? = some actor)
    : actors[position]? = some actor ∨ position = actors.length ∧ actor = new := by
  rcases Nat.lt_or_ge position actors.length with old | beyond
  · rw [List.getElem?_append_left old] at found
    exact .inl found
  · rw [List.getElem?_append_right beyond, List.getElem?_singleton] at found
    split at found
    · exact .inr ⟨by omega, (Option.some.inj found).symm⟩
    · cases found

/-- An arriving action has claimed nothing and lists nothing. -/
theorem Wired.arrived (wired : Wired session) {new : Actor} (claims : new.claims = [])
    (deferred : new.deferred = []) (lists : ∀ prediction, ¬ new.action.Lists prediction)
    : Wired { session with actors := session.actors ++ [new] } where
  predicting := wired.predicting
  claimed := fun found member => by
    rcases getElem?_append_new found with old | ⟨-, rfl⟩
    · exact wired.claimed old member
    · exact absurd member (by rw [claims]; exact List.not_mem_nil)
  apart := fun found found' member member' => by
    rcases getElem?_append_new found with old | ⟨-, rfl⟩
    · rcases getElem?_append_new found' with old' | ⟨-, rfl⟩
      · exact wired.apart old old' member member'
      · exact absurd member' (by rw [claims]; exact List.not_mem_nil)
    · exact absurd member (by rw [claims]; exact List.not_mem_nil)
  deferred := fun found member => by
    rcases getElem?_append_new found with old | ⟨-, rfl⟩
    · exact wired.deferred old member
    · exact absurd member (by rw [deferred]; exact List.not_mem_nil)
  listed := fun found listed => by
    rcases getElem?_append_new found with old | ⟨-, rfl⟩
    · exact wired.listed old listed
    · exact absurd listed (lists _)

theorem Wired.claimMatch (wired : Wired session) {index : ℕ}
    (here : session.actors[index]? = some actor) (proposalID actionID identityID : String)
    (relation : ActionKeyMatch)
    : Wired (session.claimMatch index actor proposalID actionID identityID relation)
      ∧ Progress session
        (session.claimMatch index actor proposalID actionID identityID relation) := by
  have progress := wired.predicting.progress
    (.claimMatch proposalID actionID identityID actor.action.identity relation)
  have predicting := wired.predicting.step
    (.claimMatch proposalID actionID identityID actor.action.identity relation) nofun
  have moved := wired.plan progress predicting
  have succeeded := wired.predicting.claimMatch proposalID actionID identityID
    actor.action.identity relation
  unfold Session.claimMatch
  dsimp only
  simp only [PlanRuntime.step] at progress moved
  generalize session.plan.claimMatch proposalID actionID identityID actor.action.identity relation
    = result at progress moved succeeded ⊢
  obtain ⟨plan, claimed⟩ := result
  dsimp only at progress moved succeeded ⊢
  refine ⟨moved.setActor here ?_ ?_ ?_ ?_, progress_setActor here progress (.refl _)⟩
  · intro ref member
    rcases List.mem_append.mp member with old | new
    · have kept := moved.claimed here old
      exact kept
    · obtain ⟨below, -, claimed⟩ := succeeded ref (Option.mem_toList.mp new)
      exact ⟨below.trans_le progress.grown, claimed⟩
  · intro ref member position other elsewhere there again
    rcases List.mem_append.mp member with old | new
    · exact elsewhere (wired.apart there here again old)
    · obtain ⟨-, pending, -⟩ := succeeded ref (Option.mem_toList.mp new)
      have busy := (wired.claimed there again).2.not_pending
      exact Bool.false_ne_true (busy.symm.trans pending)
  · exact fun refs member ref inside => List.mem_append_left _ (moved.deferred here member ref inside)
  · intro prediction lists
    obtain ⟨ref, member, same⟩ := moved.listed here lists
    exact ⟨ref, List.mem_append_left _ member, same⟩

theorem Wired.matched (wired : Wired session) {index : ℕ}
    (here : session.actors[index]? = some actor) (selected : List NodeRef)
    : Wired (session.matched index actor selected)
      ∧ Progress session (session.matched index actor selected) := by
  have among : ∀ ref ∈ selected.filter actor.claims.contains, ref ∈ actor.claims :=
    fun ref member => List.contains_iff_mem.mp (List.mem_filter.mp member).2
  refine ⟨wired.setAction here rfl rfl (fun refs member => ?_) (fun prediction lists => ?_),
    progress_setActor here (.refl _) ⟨rfl, id, id⟩⟩
  · rcases List.mem_append.mp member with old | new
    · exact wired.deferred here old
    · rw [List.mem_singleton.mp new]
      exact among
  · rcases ActorAction.lists_of_match lists with offered | old
    · obtain ⟨ref, member, same⟩ := List.mem_map.mp offered
      exact ⟨ref, among ref member, same.symm⟩
    · exact wired.listed here old

theorem Wired.consumed (wired : Wired session) {index : ℕ}
    (here : session.actors[index]? = some actor) (callback : ℕ)
    : Wired (session.consumed index actor callback)
      ∧ Progress session (session.consumed index actor callback) := by
  unfold Session.consumed
  split
  · rename_i claimed finished registered
    obtain ⟨progress, predicting⟩ := confirmPredictions_progress wired.predicting claimed
      actor.action.identity actor.action.adoption
    have moved := wired.plan progress predicting
    refine ⟨moved.setAction here rfl rfl (fun refs member => ?_) (fun prediction lists => ?_),
      progress_setActor here progress (.refl _)⟩
    · exact moved.deferred here (List.mem_of_mem_eraseIdx member)
    · exact moved.listed here lists
  · exact ⟨wired, .refl session⟩

/-- Every event keeps the wiring and what there was before it. -/
theorem Wired.step (wired : Wired session) (event : Event)
    : Wired (session.step event) ∧ Progress session (session.step event) := by
  cases event with
  | plan op =>
      unfold Session.step
      dsimp only
      split
      · rename_i admitted
        have keeps : op ≠ .clear := by
          rintro rfl
          cases admitted
        have progress := wired.predicting.progress op
        exact ⟨wired.plan progress (wired.predicting.step op keeps),
          progress, fun here => ⟨_, here, .refl _⟩⟩
      · exact ⟨wired, .refl session⟩
  | arrived identity tool actionKeyHash fallback =>
      refine ⟨wired.arrived rfl rfl fun prediction lists => ?_, .refl _, fun {index actor} here => ?_⟩
      · rcases lists with field | ⟨settlement, settled, -⟩
        · exact absurd field List.not_mem_nil
        · cases settled
      · have inside := (List.getElem?_eq_some_iff.mp here).1
        exact ⟨actor, (List.getElem?_append_left inside).trans here, .refl _⟩
  | claimMatch index proposalID actionID identityID relation =>
      unfold Session.step
      dsimp only
      cases here : session.actors[index]? with
      | none => exact ⟨wired, .refl session⟩
      | some actor => exact wired.claimMatch here proposalID actionID identityID relation
  | matched index selected =>
      unfold Session.step
      dsimp only
      cases here : session.actors[index]? with
      | none => exact ⟨wired, .refl session⟩
      | some actor => exact wired.matched here selected
  | call index called =>
      unfold Session.step
      dsimp only
      cases here : session.actors[index]? with
      | none => exact ⟨wired, .refl session⟩
      | some actor =>
          refine ⟨wired.setAction here (actor.action.call_identity called) rfl
            (fun refs member => wired.deferred here member)
            (fun prediction lists => wired.listed here (ActorAction.lists_of_call lists)), ?_⟩
          exact progress_setActor here (.refl _) (actor.action.call_progress called)
  | consumed index callback =>
      unfold Session.step
      dsimp only
      cases here : session.actors[index]? with
      | none => exact ⟨wired, .refl session⟩
      | some actor => exact wired.consumed here callback

/-- What confirms the claim of a prediction: somebody else's operation on the plan, or the
callback of a match once its action's consumption has finished.
-/
inductive Confirms (session : Session) (ref : NodeRef)
    : Event → ActorActionIdentity → PredictionAdoption → Prop
  | operation (actorAction : ActorActionIdentity) (adoption : PredictionAdoption)
      (admitted : session.admits (.confirm ref actorAction adoption) = true)
    : Confirms session ref (.plan (.confirm ref actorAction adoption)) actorAction adoption
  | callback (index callback : ℕ) (actor : Actor) (refs : List NodeRef)
      (here : session.actors[index]? = some actor)
      (finished : actor.action.consumption.isSome = true)
      (registered : actor.deferred[callback]? = some refs) (among : ref ∈ refs)
    : Confirms session ref (.consumed index callback) actor.action.identity actor.action.adoption

/-- A claimed prediction is settled by a confirmation under the claiming identity only. -/
theorem Wired.step_matching (wired : Wired session) (event : Event) {ref : NodeRef}
    (below : session.predicts ref) {holder : ActorActionIdentity} {relation : ActionKeyMatch}
    (matching : (session.opportunity ref).state = .matching holder relation)
    : (session.step event).opportunity ref = session.opportunity ref
      ∨ ∃ actorAction adoption,
          Confirms session ref event actorAction adoption
          ∧ sameActorAction holder actorAction = true
          ∧ ((session.step event).opportunity ref).state
            = .settled ⟨(session.opportunity ref).identity,
                .observed holder (.matched relation adoption)⟩ := by
  have moved := fun op => (wired.predicting.coherent.moved op below).of_matching matching
  cases event with
  | plan op =>
      unfold Session.step
      dsimp only
      split
      · rename_i admitted
        rcases moved op with same | ⟨actorAction, adoption, rfl, sameAction, settled⟩
        · exact .inl same
        · exact .inr ⟨actorAction, adoption, .operation _ _ admitted, sameAction, settled⟩
      · exact .inl rfl
  | arrived identity tool actionKeyHash fallback => exact .inl rfl
  | claimMatch index proposalID actionID identityID relation =>
      unfold Session.step
      dsimp only
      cases here : session.actors[index]? with
      | none => exact .inl rfl
      | some actor =>
          rcases moved (.claimMatch proposalID actionID identityID actor.action.identity relation)
            with same | ⟨actorAction, adoption, called, -⟩
          · exact .inl same
          · cases called
  | matched index selected =>
      unfold Session.step
      dsimp only
      cases session.actors[index]? <;> exact .inl rfl
  | call index called =>
      unfold Session.step
      dsimp only
      cases session.actors[index]? <;> exact .inl rfl
  | consumed index callback =>
      unfold Session.step
      dsimp only
      cases here : session.actors[index]? with
      | none => exact .inl rfl
      | some actor =>
          dsimp only
          unfold Session.consumed
          split
          · rename_i reused refs finished registered
            rcases confirmPredictions_matching wired.predicting below matching with
              same | ⟨among, sameAction, settled⟩
            · exact .inl same
            · exact .inr ⟨actor.action.identity, actor.action.adoption,
                .callback index callback actor refs here (by rw [finished]; rfl) registered among,
                sameAction, settled⟩
          · exact .inl rfl

end Steps

section Runs

theorem afterEvents_wired (events : List Event) : Wired (afterEvents events) :=
  runAll_invariant Wired wired_start (fun _ event wired => (wired.step event).1) events

/-- Later events keep what there was, by induction along them. -/
theorem afterEvents_progress (events more : List Event)
    : Progress (afterEvents events) (afterEvents (events ++ more)) := by
  have both : Wired (afterEvents (events ++ more))
      ∧ Progress (afterEvents events) (afterEvents (events ++ more)) := by
    unfold afterEvents
    rw [runAll_append]
    refine runAll_invariant
      (fun session => Wired session ∧ Progress (runAll step start events) session)
      ⟨afterEvents_wired events, .refl _⟩ (fun session event kept => ?_) more
    obtain ⟨wired, progress⟩ := kept.1.step event
    exact ⟨wired, kept.2.trans progress⟩
  exact both.2

theorem afterEvents_snoc (events : List Event) (event : Event)
    : afterEvents (events ++ [event]) = (afterEvents events).step event :=
  runAll_snoc _ _ _ _

/-- What holds of every prediction and every action after any events in any order. -/
structure PredictionAccounting (events : List Event) : Prop where
  /-- A settlement never changes. -/
  settledOnce
    : ∀ ref settlement more,
        (afterEvents events).predicts ref
        → ((afterEvents events).opportunity ref).settlement = some settlement
        → ((afterEvents (events ++ more)).opportunity ref).settlement = some settlement
  /-- A claimed prediction is settled by a confirmation under the claiming identity only. -/
  confirmed
    : ∀ ref holder relation event settlement,
        (afterEvents events).predicts ref
        → ((afterEvents events).opportunity ref).state = .matching holder relation
        → ((afterEvents (events ++ [event])).opportunity ref).settlement = some settlement
        → ∃ actorAction adoption,
            Confirms (afterEvents events) ref event actorAction adoption
            ∧ sameActorAction holder actorAction = true
            ∧ settlement.outcome = .observed holder (.matched relation adoption)
  /-- What an action claimed stays claimed by it until it is settled as its match. -/
  claimed
    : ∀ (index : ℕ) (actor : Actor) (ref : NodeRef),
        (afterEvents events).actors[index]? = some actor
        → ref ∈ actor.claims
        → ClaimedBy actor.action.identity ((afterEvents events).opportunity ref)
  /-- A callback of the action settles it, as adopted when the action has by then been
  settled with a speculative provider.
  -/
  adopted
    : ∀ (index : ℕ) (actor : Actor) (ref : NodeRef) (event : Event)
        (settlement : PredictionSettlement),
        (afterEvents events).actors[index]? = some actor
        → ref ∈ actor.claims
        → ((afterEvents events).opportunity ref).settlement = none
        → ((afterEvents (events ++ [event])).opportunity ref).settlement = some settlement
        → ∃ callback relation adoption,
            event = .consumed index callback
            ∧ actor.action.consumption.isSome = true
            ∧ settlement.outcome = .observed actor.action.identity (.matched relation adoption)
            ∧ ((∃ candidateID, adoption = .adopted candidateID)
              ↔ actor.action.settledSpeculative = true)
  /-- No two actions list a prediction of one id. -/
  listedOnce
    : ∀ (first second : ℕ) (actor other : Actor) (prediction again : PredictionIdentity),
        (afterEvents events).actors[first]? = some actor
        → (afterEvents events).actors[second]? = some other
        → actor.action.Lists prediction
        → other.action.Lists again
        → prediction.id = again.id
        → first = second
  actorSettledOnce
    : ∀ (index : ℕ) (actor : Actor) (settlement : ActorActionSettlement) (more : List Event),
        (afterEvents events).actors[index]? = some actor
        → actor.action.settlement = some settlement
        → ∃ next : Actor,
            (afterEvents (events ++ more)).actors[index]? = some next
            ∧ next.action.settlement = some settlement
  /-- An action that was ever selected is never settled as a fallback. -/
  fallbackUnselected
    : ∀ (index : ℕ) (actor next : Actor) (settlement : ActorActionSettlement) (more : List Event),
        (afterEvents events).actors[index]? = some actor
        → actor.action.selection.isSome = true
        → (afterEvents (events ++ more)).actors[index]? = some next
        → next.action.settlement = some settlement
        → settlement.provider.isFallback = false

theorem opportunity_settlement_eq_some {opportunity : PredictionOpportunity}
    {settlement : PredictionSettlement}
    : opportunity.settlement = some settlement ↔ opportunity.state = .settled settlement := by
  unfold PredictionOpportunity.settlement
  cases opportunity.state <;> simp

/-- A claim of an action is confirmed by a callback of that action. -/
theorem Wired.confirms_own {session : Session} (wired : Wired session) {index : ℕ} {actor : Actor}
    {ref : NodeRef} (here : session.actors[index]? = some actor) (claims : ref ∈ actor.claims)
    {event : Event} {actorAction : ActorActionIdentity} {adoption : PredictionAdoption}
    (confirms : Confirms session ref event actorAction adoption)
    (sameAction : sameActorAction actor.action.identity actorAction = true)
    : ∃ callback,
        event = .consumed index callback
        ∧ actor.action.consumption.isSome = true
        ∧ adoption = actor.action.adoption := by
  cases confirms with
  | operation actorAction adoption admitted =>
      have listed : (session.actors.any fun actor =>
          actor.claims.contains ref && sameActorAction actor.action.identity actorAction) = true :=
        List.any_eq_true.mpr ⟨actor, List.mem_of_getElem? here,
          Bool.and_eq_true_iff.mpr ⟨List.contains_iff_mem.mpr claims, sameAction⟩⟩
      rw [admits, listed] at admitted
      cases admitted
  | callback position callback other refs there finished registered among =>
      have inside := wired.deferred there (List.mem_of_getElem? registered) ref among
      obtain rfl := wired.apart here there claims inside
      obtain rfl := Option.some.inj (here.symm.trans there)
      exact ⟨callback, rfl, finished, rfl⟩

/-- Every order of plan operations, claims, matches, calls and callbacks accounts for every
prediction and every action once.
-/
theorem afterEvents_predictionAccounting (events : List Event) : PredictionAccounting events := by
  have wired := afterEvents_wired events
  refine ⟨fun ref settlement more below settled => ?_, ?_,
    fun index actor ref here claims => (wired.claimed here claims).2, ?_, ?_, ?_, ?_⟩
  · rw [opportunity_settlement_eq_some] at settled ⊢
    have stays := (afterEvents_progress events more).plan.settled below settled
    exact (congrArg PredictionOpportunity.state stays).trans settled
  · intro ref holder relation event settlement below matching settled
    rw [opportunity_settlement_eq_some, afterEvents_snoc] at settled
    rcases wired.step_matching event below matching with
      same | ⟨actorAction, adoption, confirms, sameAction, told⟩
    · rw [same, matching] at settled
      cases settled
    · rw [told] at settled
      obtain rfl := PredictionOpportunityState.settled.inj settled
      exact ⟨actorAction, adoption, confirms, sameAction, rfl⟩
  · intro index actor ref event settlement here claims unsettled settled
    obtain ⟨below, ⟨relation, matching⟩ | ⟨_, _, _, done⟩⟩ := wired.claimed here claims
    · rw [opportunity_settlement_eq_some, afterEvents_snoc] at settled
      rcases wired.step_matching event below matching with
        same | ⟨actorAction, adoption, confirms, sameAction, told⟩
      · rw [same, matching] at settled
        cases settled
      · rw [told] at settled
        obtain rfl := PredictionOpportunityState.settled.inj settled
        obtain ⟨callback, rfl, finished, rfl⟩ := wired.confirms_own here claims confirms sameAction
        exact ⟨callback, relation, actor.action.adoption, rfl, finished, rfl,
          ActorAction.adoption_adopted_iff⟩
    · rw [opportunity_settlement_eq_some.mpr done] at unsettled
      cases unsettled
  · intro first second actor other prediction again here there lists listsAgain same
    obtain ⟨ref, claims, rfl⟩ := wired.listed here lists
    obtain ⟨ref', claims', rfl⟩ := wired.listed there listsAgain
    have one := wired.predicting.distinct (wired.claimed here claims).1
      (wired.claimed there claims').1 same
    exact wired.apart here there claims (one ▸ claims')
  · intro index actor settlement more here settled
    obtain ⟨next, there, progress⟩ := (afterEvents_progress events more).actor here
    rw [ActorAction.settlement_eq_some] at settled
    exact ⟨next, there, ActorAction.settlement_eq_some.mpr (progress.settled settled)⟩
  · intro index actor next settlement more here selected there settled
    obtain ⟨later, found, progress⟩ := (afterEvents_progress events more).actor here
    obtain rfl := Option.some.inj (there.symm.trans found)
    have once : SelectedOnce actor.action := by
      unfold ActorAction.selection at selected
      split at selected
      · rename_i selection state
        exact .inl ⟨selection, state⟩
      · cases selected
    rw [ActorAction.settlement_eq_some] at settled
    rcases progress.selected once with ⟨selection, state⟩ | ⟨told, state, provider⟩
    · rw [state] at settled
      cases settled
    · rw [state] at settled
      obtain rfl := ActorActionState.settled.inj settled
      exact provider

/-- Whether every adoption is decided when the consumption finishes. -/
def AdoptionAtFinish (events : List Event) : Prop :=
  ∀ before index reused rest ref holder relation adoption speculative,
    events = before ++ .call index (.finishConsumption reused) :: rest
    → ((afterEvents before).actors[index]?.map fun actor =>
        (actor.action.consumption.isSome, actor.action.settledSpeculative))
      = some (false, speculative)
    → ((afterEvents events).actors[index]?.any fun actor => actor.claims.contains ref) = true
    → ((afterEvents events).opportunity ref).settlement.map PredictionSettlement.outcome
      = some (.observed holder (.matched relation adoption))
    → ((∃ candidateID, adoption = .adopted candidateID) ↔ speculative = true)

/-- The actor action of `lateSelection`. -/
def lateAction : ActorActionIdentity where
  id := "call"
  sequence := .finite (Rat.ofInt (Int.ofNat 0))
  decisionSequence := some (.finite (Rat.ofInt (Int.ofNat 1)))
  turnID := "turn"

theorem isImmutable_null : Value.null.isImmutable = true := rfl

/-- A call whose selection is settled between the end of its consumption and the callback. -/
def lateSelection : List Event :=
  let action : PlanAction := ⟨"read", .toolCall, none, "read", ⟨.null, isImmutable_null⟩, none, none, none, []⟩
  let time : Number := .finite (Rat.ofInt (Int.ofNat 0))
  [
    .plan (.apply (.owned (.proposal "plan" "source" 1 [action] false)) time),
    .arrived lateAction "read" none ⟨.matching, "no_candidate", none⟩,
    .claimMatch 0 "plan" "read" (identityText "source" "plan" "read" 1) .exact,
    .matched 0 [0],
    .call 0 (.finishConsumption []),
    .call 0 (.select ⟨"candidate", .exact, .new time time⟩),
    .call 0 (.settleSelection .speculative),
    .consumed 0 0
  ]

/-- An adoption is decided when the callback runs, not when the consumption finishes. -/
theorem lateSelection_adopted : ¬ AdoptionAtFinish lateSelection := by
  intro decided
  have adopted := decided (lateSelection.take 4) 0 [] (lateSelection.drop 5) 0 lateAction
    .exact (.adopted "candidate") false rfl (by decide +kernel) (by decide +kernel)
    (by decide +kernel)
  exact Bool.false_ne_true (adopted.mp ⟨"candidate", rfl⟩)

end Runs

end Session

end SpeculativeAction
