import SpeculativeAction.PlanRuntime.GraphSoundness

/-! What a node identity stands for: the same execution, opportunity and ancestors across
every accepted update, and one node object for ever.
-/

namespace SpeculativeAction

open SpeculativeAction.Library

namespace PlanRuntime

-- Identities across one update

/-- `ancestor` is the parent of `child` through a same-plan dependency. -/
def OwnParent (runtime : PlanRuntime) (id : String) (child ancestor : NodeRef) : Prop :=
  ∃ dependency ∈ (runtime.node child).action.dependsOn,
    dependency.pin = none ∧ runtime.mutable? id dependency.actionID = some ancestor

/-- What an update to `anchor` keeps of one node. -/
structure Preserved (before after : MutableNode) (anchor : ℕ) : Prop where
  identity : after.identity = before.identity
  action : SameExecution before.action after.action
  opportunity : after.opportunity = before.opportunity
  execution : after.execution = before.execution
  actionKey : after.actionKey = before.actionKey
  observation : after.observation = before.observation
  anchored
    : after.anchorDecisionSeq = before.anchorDecisionSeq
      ∨ (undispatched before.execution ∧ after.anchorDecisionSeq = anchor)

/-- The identity of a current node is again that of a current node after an update. -/
def IdentitySurvives (before after : PlanRuntime) (id : String) (ref : NodeRef) : Prop :=
  ∃ actionID other,
    after.mutable? id actionID = some other
    ∧ (after.node other).identity.id = (before.node ref).identity.id

/-- The effect of an accepted update of plan `id`: whatever node has the same identity
before and after is the same preserved node, with its same-plan ancestors.
-/
structure IdentitySound (before after : PlanRuntime) (id : String) (anchor : ℕ)
    (retired : List NodeSnapshot)
    : Prop where
  survivor
    : ∀ {owner otherOwner actionID otherID ref other},
        before.mutable? owner actionID = some ref
        → after.mutable? otherOwner otherID = some other
        → (after.node other).identity.id = (before.node ref).identity.id
        → otherOwner = owner
          ∧ otherID = actionID
          ∧ other = ref
          ∧ Preserved (before.node ref) (after.node ref) anchor
          ∧ ∀ ancestor,
              Relation.TransGen (before.OwnParent owner) ref ancestor
              → ∃ ancestorID,
                  before.mutable? owner ancestorID = some ancestor
                  ∧ after.mutable? owner ancestorID = some ancestor
                  ∧ (after.node ancestor).identity = (before.node ancestor).identity
  retired
    : ∃ refs : List NodeRef,
        refs.Nodup
        ∧ retired = refs.map before.snapshot
        ∧ ∀ ref,
            ref ∈ refs
            ↔ (∃ actionID, before.mutable? id actionID = some ref)
              ∧ ¬ IdentitySurvives before after id ref

namespace Accepted

section

variable {before after : PlanRuntime} {input : CommitInput}
  (accepted : Accepted before input after) {actionID : String} {ref : NodeRef}

include accepted

/-- A kept node is preserved, under its new record. -/
theorem preserved {action : PlanAction} (requested : input.actions.get? actionID = some action)
    (kept : before.kept? input actionID = some ref)
    : Preserved (before.node ref) (after.node ref) input.anchor := by
  have value := (accepted.node_kept requested kept).2
  refine {
    identity := accepted.kept_identity requested kept
    action := by
      rw [accepted.kept_action requested kept]
      exact accepted.kept_sameExecution requested kept
    opportunity := (congrArg (fun node : MutableNode => node.opportunity) value :)
    execution := (congrArg (fun node : MutableNode => node.execution) value :)
    actionKey := (congrArg (fun node : MutableNode => node.actionKey) value :)
    observation := (congrArg (fun node : MutableNode => node.observation) value :)
    anchored := ?_
  }
  have anchored : (after.node ref).anchorDecisionSeq
      = if decide (actionID ∈ input.touched) && undispatched (before.node ref).execution then
          input.anchor
        else (before.node ref).anchorDecisionSeq :=
    (congrArg (fun node : MutableNode => node.anchorDecisionSeq) value :)
  rw [anchored]
  split
  next reanchored => exact .inr ⟨(Bool.and_eq_true _ _ ▸ reanchored).2, rfl⟩
  next => exact .inl rfl

/-- A current node whose identity survives is kept: a new node's revision is newer than any
identity the plan issued before.
-/
theorem kept_of_identity {otherID : String} {other : NodeRef}
    (current : before.mutable? input.id actionID = some ref)
    (later : after.mutable? input.id otherID = some other)
    (same : (after.node other).identity.id = (before.node ref).identity.id)
    : otherID = actionID ∧ other = ref ∧ before.kept? input actionID = some ref := by
  obtain ⟨planRef, stored, node⟩ := mutable?_eq_some.mp current
  have issued := accepted.coherent.named.issued stored node
  obtain ⟨revision, earlier, text⟩ := issued.text
  obtain ⟨newer, -, newText⟩ := (accepted.issued_self later).text
  rw [text, newText] at same
  obtain ⟨-, -, actionIDs, revisions⟩ := identityText_inj same
  subst actionIDs
  obtain ⟨action, requested, ⟨kept, -⟩ | ⟨-, -, -, value⟩⟩ := accepted.own_cases later
  · obtain rfl := Option.some.inj ((kept?_eq_some.mp kept).2.symm.trans current)
    exact ⟨rfl, rfl, kept⟩
  · have fresh : (after.node other).identity.id
        = identityText input.source input.id action.id input.revision :=
      congrArg (fun identity => identity.id) (MutableNode.identity_of_withoutWindows value)
    rw [newText] at fresh
    obtain ⟨-, -, -, isNew⟩ := identityText_inj fresh
    have fresher := accepted.checked.fresher stored
    omega

/-- The same-plan ancestors of a kept node are kept, by induction along the path. -/
theorem ancestor_kept {ancestor : NodeRef}
    (requested : ∃ action, input.actions.get? actionID = some action)
    (kept : before.kept? input actionID = some ref)
    (path : Relation.TransGen (before.OwnParent input.id) ref ancestor)
    : ∃ ancestorID,
        (∃ action, input.actions.get? ancestorID = some action)
        ∧ before.kept? input ancestorID = some ancestor := by
  have parentKept {childID : String} {child parent : NodeRef}
      (requested : ∃ action, input.actions.get? childID = some action)
      (kept : before.kept? input childID = some child) (edge : before.OwnParent input.id child parent)
      : ∃ parentID,
          (∃ action, input.actions.get? parentID = some action)
          ∧ before.kept? input parentID = some parent := by
    obtain ⟨action, found⟩ := requested
    obtain ⟨dependency, declared, plain, current⟩ := edge
    have declaredNow : dependency ∈ action.dependsOn :=
      (accepted.kept_sameExecution found kept).dependsOn.mem_iff.mp declared
    obtain ⟨other, otherKept⟩ := accepted.kept_parent found kept declaredNow plain
    obtain rfl := Option.some.inj ((kept?_eq_some.mp otherKept).2.symm.trans current)
    exact ⟨dependency.actionID,
      accepted.requested_parent (accepted.listed found) declaredNow plain, otherKept⟩
  induction path with
  | single edge => exact parentKept requested kept edge
  | tail _ edge ih =>
      obtain ⟨middleID, middleRequested, middleKept⟩ := ih
      exact parentKept middleRequested middleKept edge

/-- A kept node's action is requested. -/
theorem requested_of_kept (kept : before.kept? input actionID = some ref)
    (present : actionID ∈ input.actions.keys)
    : after.mutable? input.id actionID = some ref
      ∧ (after.node ref).identity = (before.node ref).identity := by
  obtain ⟨action, requested⟩ := OrderedMap.mem_keys_iff.mp present
  exact ⟨(accepted.node_kept requested kept).1, accepted.kept_identity requested kept⟩

/-- The retired ids: stored ones that are removed or replaced. -/
theorem mem_retiredIDs (current : before.mutable? input.id actionID = some ref)
    : actionID ∈ before.removed input ++ before.replaced input
      ↔ ¬ IdentitySurvives before after input.id ref := by
  obtain ⟨planRef, stored, node⟩ := mutable?_eq_some.mp current
  have present : actionID ∈ (before.plan planRef).nodes.keys :=
    OrderedMap.mem_keys_iff.mpr ⟨ref, node⟩
  have removed : actionID ∈ before.removed input ↔ actionID ∉ input.actions.keys := by
    simp [PlanRuntime.removed, PlanRuntime.current, plan?, stored, present]
  rw [List.mem_append, removed]
  constructor
  · rintro retired ⟨otherID, other, later, same⟩
    obtain ⟨rfl, rfl, kept⟩ := accepted.kept_of_identity current later same
    rcases retired with absent | replaced
    · obtain ⟨action, requested, -⟩ := accepted.own_cases later
      exact absent (OrderedMap.mem_keys_iff.mpr ⟨action, requested⟩)
    · exact (kept?_eq_some.mp kept).1 replaced
  · intro lost
    by_contra! stays
    have kept := kept?_eq_some.mpr ⟨stays.2, current⟩
    obtain ⟨later, same⟩ := accepted.requested_of_kept kept stays.1
    exact lost ⟨actionID, ref, later, by rw [same]⟩

/-- Retired ids are stored and listed once: removed ones are not requested, replaced ones
are.
-/
theorem retiredIDs_nodup : (before.removed input ++ before.replaced input).Nodup := by
  have pass := accepted.checked.replacementPass
  refine List.nodup_append.mpr ⟨?_, pass.distinct, ?_⟩
  · unfold PlanRuntime.removed
    cases before.current input with
    | none => exact .nil
    | some plan => exact plan.nodes.keys_nodup.filter _
  · rintro actionID inRemoved other inReplaced rfl
    obtain ⟨action, listed, rfl⟩ := List.mem_map.mp (pass.listed _ inReplaced)
    have present : action.id ∈ input.actions.keys :=
      OrderedMap.mem_keys_iff.mpr ⟨action, (accepted.checked.listed action).mp listed⟩
    unfold PlanRuntime.removed at inRemoved
    cases found : before.current input with
    | none => simp [found] at inRemoved
    | some plan => simp [found, present] at inRemoved

/-- A node of another plan is preserved, with all its same-plan ancestors. -/
theorem other_survivor {id : String} (other : id ≠ input.id)
    (current : before.mutable? id actionID = some ref)
    : Preserved (before.node ref) (after.node ref) input.anchor
      ∧ ∀ ancestor,
          Relation.TransGen (before.OwnParent id) ref ancestor
          → ∃ ancestorID,
              before.mutable? id ancestorID = some ancestor
              ∧ after.mutable? id ancestorID = some ancestor
              ∧ (after.node ancestor).identity = (before.node ancestor).identity := by
  have value := accepted.node_other current other
  refine ⟨?_, fun ancestor path => ?_⟩
  · exact {
      identity := MutableNode.identity_of_withoutWindows value
      action := MutableNode.action_of_withoutWindows value ▸ .refl _
      opportunity := (congrArg (fun node : MutableNode => node.opportunity) value :)
      execution := (congrArg (fun node : MutableNode => node.execution) value :)
      actionKey := (congrArg (fun node : MutableNode => node.actionKey) value :)
      observation := (congrArg (fun node : MutableNode => node.observation) value :)
      anchored := .inl (congrArg (fun node : MutableNode => node.anchorDecisionSeq) value :)
    }
  · obtain ⟨last, -, dependency, -, -, found⟩ := Relation.TransGen.tail'_iff.mp path
    exact ⟨dependency.actionID, found, (accepted.mutable?_other other _).trans found,
      MutableNode.identity_of_withoutWindows (accepted.node_other found other)⟩

/-- The effect of an accepted update on identities, by cases on the plan of the node. -/
theorem identitySound
    : IdentitySound before after input.id input.anchor (before.retired input) where
  survivor := by
    intro owner otherOwner actionID otherID ref other current later same
    obtain ⟨planRef, stored, node⟩ := mutable?_eq_some.mp current
    obtain ⟨laterRef, laterStored, laterNode⟩ := mutable?_eq_some.mp later
    obtain ⟨_, -, text⟩ := (accepted.coherent.named.issued stored node).text
    obtain ⟨_, -, laterText⟩ := (accepted.named.issued laterStored laterNode).text
    obtain ⟨-, owners, actionIDs, -⟩ :=
      identityText_inj (laterText.symm.trans (same.trans text))
    subst owners
    by_cases own : otherOwner = input.id
    · subst own
      obtain ⟨rfl, rfl, kept⟩ := accepted.kept_of_identity current later same
      obtain ⟨action, requested, -⟩ := accepted.own_cases later
      refine ⟨rfl, rfl, rfl, accepted.preserved requested kept, fun ancestor path => ?_⟩
      obtain ⟨ancestorID, ⟨record, found⟩, ancestorKept⟩ :=
        accepted.ancestor_kept ⟨action, requested⟩ kept path
      exact ⟨ancestorID, (kept?_eq_some.mp ancestorKept).2,
        (accepted.node_kept found ancestorKept).1, accepted.kept_identity found ancestorKept⟩
    · subst actionIDs
      rw [accepted.mutable?_other own] at later
      obtain rfl := Option.some.inj (later.symm.trans current)
      exact ⟨rfl, rfl, rfl, accepted.other_survivor own current⟩
  retired := by
    refine ⟨(before.removed input ++ before.replaced input).filterMap (before.mutable? input.id),
      ?_, ?_, fun ref => ?_⟩
    · refine accepted.retiredIDs_nodup.filterMap fun left right ref inLeft inRight => ?_
      exact (accepted.coherent.named.key_unique inLeft inRight).2
    · rw [List.map_filterMap]
      rfl
    · rw [List.mem_filterMap]
      constructor
      · rintro ⟨actionID, retired, current⟩
        exact ⟨⟨actionID, current⟩, (accepted.mem_retiredIDs current).mp retired⟩
      · rintro ⟨⟨actionID, current⟩, lost⟩
        exact ⟨actionID, (accepted.mem_retiredIDs current).mpr lost, current⟩

end

end Accepted

/-- Every accepted update of a coherent runtime is sound for the identities of its plan. -/
theorem Coherent.identitySound {runtime : PlanRuntime} (coherent : Coherent runtime)
    {update : HandedUpdate} {anchorDecisionSeq : Number} {plan : PlanSnapshot}
    {upserted : List PlanAction} {removed : List String} {retired : List NodeSnapshot}
    (result
      : (runtime.apply update anchorDecisionSeq).2 = .accepted plan upserted removed retired)
    : IdentitySound runtime (runtime.apply update anchorDecisionSeq).1 update.planID
        anchorDecisionSeq.nonNegativeCount retired := by
  rcases coherent.apply_cases update anchorDecisionSeq with
    ⟨reason, same⟩ | ⟨input, checked, id, anchor, same⟩
  · rw [same] at result
    cases result
  · have sound := Accepted.identitySound ⟨coherent, checked, committed runtime input⟩
    rw [same] at result ⊢
    obtain ⟨-, -, -, rfl⟩ := UpdateResult.accepted.inj result
    rw [← id, ← anchor]
    exact sound

-- Identities over runs

/-- Every node object ever made has an identity its plan issued, and no two share one. -/
structure IssuedOnce (runtime : PlanRuntime) : Prop where
  issued
    : ∀ {ref},
        ref < runtime.nodeHeap.size
        → ∃ planRef,
            runtime.plans.get? (runtime.node ref).identity.proposalID = some planRef
            ∧ ∃ issued ≤ (runtime.plan planRef).revision,
                (runtime.node ref).identity.id
                = identityText (runtime.node ref).identity.source
                    (runtime.node ref).identity.proposalID (runtime.node ref).identity.actionID issued
  distinct
    : ∀ {left right},
        left < runtime.nodeHeap.size
        → right < runtime.nodeHeap.size
        → (runtime.node left).identity.id = (runtime.node right).identity.id
        → left = right

theorem SameGraph.issuedOnce {before after : PlanRuntime}
    (same : SameGraph MutableNode.placed before after) (once : IssuedOnce before)
    : IssuedOnce after := by
  refine ⟨fun {ref} below => ?_, fun {left right} leftBelow rightBelow texts => ?_⟩
  · rw [same.nodeCount] at below
    obtain ⟨planRef, stored, issued⟩ := once.issued below
    refine ⟨planRef, ?_, ?_⟩
    · rw [same.plans, same.identity, stored]
    · rw [same.identity, same.plan planRef]
      exact issued
  · rw [same.nodeCount] at leftBelow rightBelow
    rw [same.identity, same.identity] at texts
    exact once.distinct leftBelow rightBelow texts

namespace Accepted

section

variable {before after : PlanRuntime} {input : CommitInput}
  (accepted : Accepted before input after)

include accepted

/-- No node object changes its identity, retired ones included. -/
theorem identity_old {ref : NodeRef} (old : ref < before.nodeHeap.size)
    : (after.node ref).identity = (before.node ref).identity := by
  have placed := accepted.coherent.named.placed input
  by_cases kept : ∃ actionID ∈ input.actions.keys, before.kept? input actionID = some ref
  · obtain ⟨actionID, present, kept⟩ := kept
    exact (accepted.requested_of_kept kept present).2
  · push Not at kept
    have value := accepted.committed.node ref
    rw [placed.others old kept] at value
    exact MutableNode.identity_of_withoutWindows value

/-- A new node object is current, under the identity of this revision. -/
theorem fresh_identity {ref : NodeRef} (new : before.nodeHeap.size ≤ ref)
    (below : ref < after.nodeHeap.size)
    : ∃ actionID,
        after.mutable? input.id actionID = some ref
        ∧ (after.node ref).identity.id
          = identityText input.source input.id actionID input.revision := by
  have placed := accepted.coherent.named.placed input
  rw [accepted.committed.nodeCount] at below
  obtain ⟨actionID, action, member, made, found⟩ := placed.issued new below
  have requested := OrderedMap.get?_eq_some_iff.mpr member
  obtain ⟨other, current, -, -, value⟩ := accepted.node_fresh requested made
  have same := (accepted.mutable?_self actionID).trans found
  obtain rfl := Option.some.inj (current.symm.trans same)
  refine ⟨actionID, same, ?_⟩
  rw [MutableNode.identity_of_withoutWindows value, ← accepted.checked.keyed requested]
  rfl

/-- An accepted update issues only identities no object had before. -/
theorem issuedOnce (once : IssuedOnce before) : IssuedOnce after := by
  have notReissued {old new : NodeRef} (oldBelow : old < before.nodeHeap.size)
      (isNew : before.nodeHeap.size ≤ new) (newBelow : new < after.nodeHeap.size)
      : (after.node old).identity.id ≠ (after.node new).identity.id := by
    intro same
    obtain ⟨planRef, stored, revision, earlier, text⟩ := once.issued oldBelow
    obtain ⟨actionID, -, newText⟩ := accepted.fresh_identity isNew newBelow
    rw [accepted.identity_old oldBelow, text, newText] at same
    obtain ⟨-, plan, -, revisions⟩ := identityText_inj same
    rw [plan] at stored
    have fresher := accepted.checked.fresher stored
    omega
  refine ⟨fun {ref} below => ?_, fun {left right} leftBelow rightBelow same => ?_⟩
  · by_cases old : ref < before.nodeHeap.size
    · obtain ⟨planRef, stored, revision, earlier, text⟩ := once.issued old
      rw [accepted.identity_old old]
      by_cases own : (before.node ref).identity.proposalID = input.id
      · refine ⟨before.planHeap.size, own ▸ accepted.plans_self, revision, ?_, text⟩
        rw [own] at stored
        have fresher := accepted.checked.fresher stored
        rw [accepted.committed.nextPlan]
        exact Nat.le_of_lt (Nat.lt_of_le_of_lt earlier fresher)
      · refine ⟨planRef, (accepted.plans_other own).trans stored, revision, ?_, text⟩
        rw [accepted.plan_other stored]
        exact earlier
    · obtain ⟨actionID, current, -⟩ := accepted.fresh_identity (Nat.not_lt.mp old) below
      have issued := accepted.issued_self current
      obtain ⟨revision, earlier, text⟩ := issued.text
      rw [issued.proposalID, issued.source, issued.actionID]
      refine ⟨before.planHeap.size, accepted.plans_self, revision, ?_, text⟩
      rw [accepted.committed.nextPlan]
      exact earlier
  · by_cases leftOld : left < before.nodeHeap.size
    · by_cases rightOld : right < before.nodeHeap.size
      · rw [accepted.identity_old leftOld, accepted.identity_old rightOld] at same
        exact once.distinct leftOld rightOld same
      · exact absurd same (notReissued leftOld (Nat.not_lt.mp rightOld) rightBelow)
    · by_cases rightOld : right < before.nodeHeap.size
      · exact absurd same.symm (notReissued rightOld (Nat.not_lt.mp leftOld) leftBelow)
      · obtain ⟨leftID, leftCurrent, leftText⟩ :=
          accepted.fresh_identity (Nat.not_lt.mp leftOld) leftBelow
        obtain ⟨rightID, rightCurrent, rightText⟩ :=
          accepted.fresh_identity (Nat.not_lt.mp rightOld) rightBelow
        rw [leftText, rightText] at same
        obtain ⟨-, -, ids, -⟩ := identityText_inj same
        subst ids
        exact Option.some.inj (leftCurrent.symm.trans rightCurrent)

end

end Accepted

/-- Every operation but `clear` keeps identities issued once. -/
theorem IssuedOnce.step {runtime : PlanRuntime} (once : IssuedOnce runtime)
    (coherent : Coherent runtime) {op : Op} (keeps : op ≠ .clear)
    : IssuedOnce (runtime.step op) := by
  cases isLocal : op.isLocal with
  | true =>
      exact ((step_sameGraph runtime isLocal).mono fun _ _ =>
        MutableNode.placed_of_timed).issuedOnce once
  | false =>
      cases op with
      | apply update anchorDecisionSeq =>
          rcases coherent.apply_cases update anchorDecisionSeq with
            ⟨reason, same⟩ | ⟨input, checked, -, -, same⟩
          · simpa only [PlanRuntime.step, same] using once
          · simp only [PlanRuntime.step, same]
            exact Accepted.issuedOnce ⟨coherent, checked, committed runtime input⟩ once
      | confirm ref actorAction adoption =>
          exact (confirm_sameGraph runtime ref actorAction adoption).issuedOnce once
      | clear => exact absurd rfl keeps
      | _ => cases isLocal

/-- Identities are issued once over every run without `clear`. -/
theorem afterOps_issuedOnce (ops : List Op) (kept : ∀ op ∈ ops, op ≠ .clear)
    : IssuedOnce (afterOps ops) := by
  have base : Coherent create ∧ IssuedOnce create :=
    ⟨coherent_of_empty rfl, fun below => absurd below (Nat.not_lt_zero _),
      fun below => absurd below (Nat.not_lt_zero _)⟩
  exact (runAll_invariant_of_allowed (fun runtime => Coherent runtime ∧ IssuedOnce runtime)
    (· ≠ .clear) base
    (fun _ op keeps both => ⟨both.1.step op, both.2.step both.1 keeps⟩) ops kept).2

/-- Identity soundness: accepted updates of any reachable runtime preserve what surviving
identities stand for and retire exactly the others, and over a run without `clear` no two
node objects ever have the same identity.
-/
theorem afterOps_identitySound (ops : List Op)
    : (∀ update anchorDecisionSeq plan upserted removed retired,
        ((afterOps ops).apply update anchorDecisionSeq).2 = .accepted plan upserted removed retired
        → IdentitySound (afterOps ops) ((afterOps ops).apply update anchorDecisionSeq).1
            update.planID anchorDecisionSeq.nonNegativeCount retired)
      ∧ ((∀ op ∈ ops, op ≠ .clear)
        → ∀ left right,
            left < (afterOps ops).nodeHeap.size
            → right < (afterOps ops).nodeHeap.size
            → ((afterOps ops).node left).identity.id = ((afterOps ops).node right).identity.id
            → left = right) :=
  ⟨fun _ _ _ _ _ _ result => (afterOps_coherent ops).identitySound result,
    fun kept _ _ => (afterOps_issuedOnce ops kept).distinct⟩

end PlanRuntime

end SpeculativeAction
