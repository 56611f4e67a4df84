import SpeculativeAction.PlanRuntime.PlanIdentity
import SpeculativeAction.PlanRuntime.Recompute

/-! What the operations do to the opportunity of one node object: which of them claims it,
which of them settles it, and that nothing else ever touches it.
-/

namespace SpeculativeAction

open SpeculativeAction.Library

namespace PlanRuntime

section Updates

variable {before after : PlanRuntime} {input : CommitInput}

/-- No update touches the opportunity of a node object, retired ones included. -/
theorem Accepted.opportunity_old (accepted : Accepted before input after) {ref : NodeRef}
    (old : ref < before.nodeHeap.size)
    : (after.node ref).opportunity = (before.node ref).opportunity := by
  have placed := accepted.coherent.named.placed input
  by_cases kept : ∃ actionID ∈ input.actions.keys, before.kept? input actionID = some ref
  · obtain ⟨actionID, present, kept⟩ := kept
    obtain ⟨action, requested⟩ := OrderedMap.mem_keys_iff.mp present
    exact (accepted.preserved requested kept).opportunity
  · push Not at kept
    have value := accepted.committed.node ref
    rw [placed.others old kept] at value
    exact (congrArg (fun node : MutableNode => node.opportunity) value :)

/-- A new node object predicts its own action. -/
theorem Accepted.opportunity_fresh (accepted : Accepted before input after) {ref : NodeRef}
    (new : before.nodeHeap.size ≤ ref) (below : ref < after.nodeHeap.size)
    : (after.node ref).opportunity.identity = (after.node ref).identity := by
  obtain ⟨actionID, current, -⟩ := accepted.fresh_identity new below
  exact (accepted.issued_self current).opportunity

end Updates

section Moves

/-- All that one operation can do to the opportunity of one node object. -/
inductive Moved (op : Op) (ref : NodeRef) (opportunity : PredictionOpportunity)
    : PredictionOpportunity → Prop
  | kept : Moved op ref opportunity opportunity
  | claimed (proposalID actionID identityID : String) (actorAction : ActorActionIdentity)
      (relation : ActionKeyMatch)
      (called : op = .claimMatch proposalID actionID identityID actorAction relation)
    : Moved op ref opportunity (opportunity.claim actorAction relation).1
  | confirmed (actorAction : ActorActionIdentity) (adoption : PredictionAdoption)
      (called : op = .confirm ref actorAction adoption)
    : Moved op ref opportunity (opportunity.confirm actorAction adoption).1
  | missed (actorAction : ActorActionIdentity)
    : Moved op ref opportunity (opportunity.miss actorAction).1
  | unobserved (cause : ResolutionCause)
    : Moved op ref opportunity (opportunity.unobserve cause).1

theorem opportunity_setOpportunity (runtime : PlanRuntime) (ref other : NodeRef)
    (opportunity : PredictionOpportunity)
    : ((runtime.setOpportunity other opportunity).node ref).opportunity
      = if ref = other then opportunity else (runtime.node ref).opportunity := by
  unfold setOpportunity
  by_cases here : ref = other
  · rw [here, node_setNode_self, if_pos rfl]
  · rw [node_setNode_of_ne _ _ here, if_neg here]

theorem opportunity_recompute (runtime : PlanRuntime) (graph : GraphRef) (ref : NodeRef)
    : ((runtime.recompute graph).node ref).opportunity = (runtime.node ref).opportunity := by
  have same := (recompute_sameGraph runtime graph).node ref
  exact (congrArg (fun node : MutableNode => node.opportunity) same :)

/-- A confirmation reaches the opportunity it names only. -/
theorem opportunity_confirm (runtime : PlanRuntime) (ref other : NodeRef)
    (actorAction : ActorActionIdentity) (adoption : PredictionAdoption)
    : ((runtime.confirm other actorAction adoption).1.node ref).opportunity
      = if ref = other then ((runtime.node ref).opportunity.confirm actorAction adoption).1
        else (runtime.node ref).opportunity := by
  have settles := (runtime.node other).opportunity.confirm_settles actorAction adoption
  unfold confirm
  dsimp only
  split
  · rename_i silent
    by_cases here : ref = other
    · rw [if_pos here, here]
      rcases settles with same | ⟨claimed, relation, -, -, -, told⟩
      · rw [same]
      · rw [silent] at told
        cases told
    · rw [if_neg here]
  · rename_i opportunity settlement settled
    have reached : ((runtime.setOpportunity other opportunity).node ref).opportunity
        = if ref = other then ((runtime.node ref).opportunity.confirm actorAction adoption).1
          else (runtime.node ref).opportunity := by
      rw [opportunity_setOpportunity]
      by_cases here : ref = other
      · rw [if_pos here, if_pos here, here, settled]
      · rw [if_neg here, if_neg here]
    split
    · exact reached
    · split
      · rw [opportunity_recompute]
        exact reached
      · exact reached

/-- The moves of an opportunity are those of the operations on it, by cases on the operation. -/
theorem Coherent.moved {runtime : PlanRuntime} (coherent : Coherent runtime) (op : Op)
    {ref : NodeRef} (below : ref < runtime.nodeHeap.size)
    : Moved op ref (runtime.node ref).opportunity ((runtime.step op).node ref).opportunity := by
  cases isExecution : op.isExecution with
  | true =>
      have same := (step_sameOpportunity runtime isExecution).node ref
      have kept : ((runtime.step op).node ref).opportunity = (runtime.node ref).opportunity :=
        congrArg Prod.snd same
      rw [kept]
      exact .kept
  | false =>
      cases op with
      | apply update anchorDecisionSeq =>
          rcases coherent.apply_cases update anchorDecisionSeq with
            ⟨reason, same⟩ | ⟨input, checked, -, -, same⟩
          · simp only [PlanRuntime.step, same]
            exact .kept
          · simp only [PlanRuntime.step, same]
            have accepted : Accepted runtime input (runtime.commit input).1 :=
              ⟨coherent, checked, committed runtime input⟩
            rw [accepted.opportunity_old below]
            exact .kept
      | confirm other actorAction adoption =>
          simp only [PlanRuntime.step, opportunity_confirm]
          split
          · rename_i here
            exact .confirmed actorAction adoption (by rw [here])
          · exact .kept
      | clear => exact .kept
      | claimMatch proposalID actionID identityID actorAction relation =>
          simp only [PlanRuntime.step, claimMatch]
          split
          · exact .kept
          · split
            · exact .kept
            · dsimp only
              rw [opportunity_setOpportunity]
              split
              · rename_i here
                rw [here]
                exact .claimed proposalID actionID identityID actorAction relation rfl
              · exact .kept
      | miss proposalID actionID actorAction =>
          simp only [PlanRuntime.step, miss]
          split
          · exact .kept
          · dsimp only
            rw [opportunity_setOpportunity]
            split
            · rename_i here
              rw [here]
              exact .missed actorAction
            · exact .kept
      | unobserve other cause =>
          simp only [PlanRuntime.step, unobserve]
          rw [opportunity_setOpportunity]
          split
          · rename_i here
            rw [here]
            exact .unobserved cause
          · exact .kept
      | _ => cases isExecution

end Moves

section Consequences

variable {op : Op} {ref : NodeRef} {before after : PredictionOpportunity}

/-- Moves keep the identity of an opportunity. -/
theorem Moved.identity (moved : Moved op ref before after) : after.identity = before.identity := by
  cases moved with
  | kept => rfl
  | claimed => exact PredictionOpportunity.claim_identity ..
  | confirmed => exact PredictionOpportunity.confirm_identity ..
  | missed => exact PredictionOpportunity.miss_identity ..
  | unobserved => exact PredictionOpportunity.unobserve_identity ..

/-- An opportunity that is no longer pending moves by a confirmation only. -/
theorem Moved.of_not_pending (moved : Moved op ref before after) (busy : before.isPending = false)
    : after = before
      ∨ ∃ actorAction adoption,
          op = .confirm ref actorAction adoption
          ∧ after = (before.confirm actorAction adoption).1 := by
  cases moved with
  | kept => exact .inl rfl
  | claimed => exact .inl (before.claim_of_not_pending _ _ busy)
  | confirmed actorAction adoption called => exact .inr ⟨actorAction, adoption, called, rfl⟩
  | missed => exact .inl (before.miss_of_not_pending _ busy)
  | unobserved => exact .inl (before.unobserve_of_not_pending _ busy)

/-- A settled opportunity stays as it is. -/
theorem Moved.of_settled (moved : Moved op ref before after) {settlement : PredictionSettlement}
    (settled : before.state = .settled settlement)
    : after = before := by
  have busy : before.isPending = false := by
    unfold PredictionOpportunity.isPending
    rw [settled]
  rcases moved.of_not_pending busy with same | ⟨actorAction, adoption, -, confirmed⟩
  · exact same
  · rcases before.confirm_settles actorAction adoption with
      same | ⟨claimed, relation, matching, -⟩
    · rw [confirmed, same]
    · rw [settled] at matching
      cases matching

/-- A claimed opportunity is settled by a confirmation of the same Actor call only, and then
as a match of the claiming one.
-/
theorem Moved.of_matching (moved : Moved op ref before after) {claimed : ActorActionIdentity}
    {relation : ActionKeyMatch} (matching : before.state = .matching claimed relation)
    : after = before
      ∨ ∃ actorAction adoption,
          op = .confirm ref actorAction adoption
          ∧ sameActorAction claimed actorAction = true
          ∧ after.state
            = .settled ⟨before.identity, .observed claimed (.matched relation adoption)⟩ := by
  have busy : before.isPending = false := by
    unfold PredictionOpportunity.isPending
    rw [matching]
  rcases moved.of_not_pending busy with same | ⟨actorAction, adoption, called, confirmed⟩
  · exact .inl same
  · rcases before.confirm_settles actorAction adoption with
      same | ⟨other, otherRelation, found, sameAction, settled, -⟩
    · exact .inl (by rw [confirmed, same])
    · rw [matching] at found
      obtain ⟨rfl, rfl⟩ := PredictionOpportunityState.matching.inj found
      exact .inr ⟨actorAction, adoption, called, sameAction, confirmed ▸ settled⟩

end Consequences

end PlanRuntime

end SpeculativeAction
