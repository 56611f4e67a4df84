import SpeculativeAction.PlanRuntime.Commit

/-! Which nodes survive an accepted update. A survivor keeps its execution and its resolved
parents; identity pinning keeps old edges off new nodes.
-/

namespace SpeculativeAction

open SpeculativeAction.Library

namespace PlanRuntime

/-- A checked input committed to a coherent runtime. -/
structure Accepted (before : PlanRuntime) (input : CommitInput) (after : PlanRuntime) : Prop where
  coherent : Coherent before
  checked : Checked before input
  committed : Committed before input after

namespace Accepted

section

variable {before after : PlanRuntime} {input : CommitInput}
  (accepted : Accepted before input after)
  {id actionID : String} {ref : NodeRef} {action : PlanAction}
  {dependency : PlanDependency}

include accepted

-- Plans

theorem plans_self : after.plans.get? input.id = some before.planHeap.size := by
  rw [accepted.committed.plans, OrderedMap.get?_set, if_pos rfl]

theorem plans_other (other : id ≠ input.id)
    : after.plans.get? id = before.plans.get? id := by
  rw [accepted.committed.plans, OrderedMap.get?_set, if_neg other]

/-- Another stored plan changes at most its graph. -/
theorem plan_other {planRef : PlanRef} (stored : before.plans.get? id = some planRef)
    : after.plan planRef
      = {
          before.plan planRef with
          nextRevision := (after.plan planRef).nextRevision
          graph :=
            if planRef ∈ before.joinedPlans input then before.graphHeap.size
            else (before.plan planRef).graph
        } :=
  accepted.committed.otherPlan planRef
    (Nat.ne_of_lt (accepted.coherent.named.planRef stored))

theorem nodes_other {planRef : PlanRef} (stored : before.plans.get? id = some planRef)
    : (after.plan planRef).nodes = (before.plan planRef).nodes := by
  rw [accepted.plan_other stored]

theorem nodes_self : (after.plan before.planHeap.size).nodes = (before.placement input).nodes := by
  rw [accepted.committed.nextPlan]
  rfl

theorem mutable?_other (other : id ≠ input.id) (actionID : String)
    : after.mutable? id actionID = before.mutable? id actionID := by
  rw [mutable?, mutable?, plan?, plan?, accepted.plans_other other]
  cases stored : before.plans.get? id with
  | none => rfl
  | some planRef => simp only [Option.map_some, Option.bind_some, accepted.nodes_other stored]

theorem mutable?_self (actionID : String)
    : after.mutable? input.id actionID = (before.placement input).nodes.get? actionID := by
  rw [mutable?, plan?, accepted.plans_self, Option.map_some, Option.bind_some,
    accepted.nodes_self]

-- Nodes

/-- The nodes of other plans change at most their windows. -/
theorem node_other (current : before.mutable? id actionID = some ref) (other : id ≠ input.id)
    : (after.node ref).withoutWindows = (before.node ref).withoutWindows := by
  have named := accepted.coherent.named
  rw [accepted.committed.node]
  rw [(named.placed input).others (named.nodeRef current) fun otherID _ kept => ?_]
  exact other (named.key_unique current (kept?_eq_some.mp kept).2).1

/-- A kept node stays current under its action and takes the action's new record. -/
theorem node_kept (requested : input.actions.get? actionID = some action)
    (kept : before.kept? input actionID = some ref)
    : after.mutable? input.id actionID = some ref
      ∧ (after.node ref).withoutWindows
        = (keepNode action (decide (actionID ∈ input.touched)) input.anchor
            (before.node ref)).withoutWindows := by
  obtain ⟨found, value⟩ := (accepted.coherent.named.placed input).kept
    (OrderedMap.get?_eq_some_iff.mp requested) kept
  exact ⟨(accepted.mutable?_self actionID).trans found,
    (accepted.committed.node ref).trans (congrArg _ value)⟩

/-- An action that keeps no node gets a new one. -/
theorem node_fresh (requested : input.actions.get? actionID = some action)
    (made : before.kept? input actionID = none)
    : ∃ ref,
        after.mutable? input.id actionID = some ref
        ∧ before.nodeHeap.size ≤ ref
        ∧ ref < after.nodeHeap.size
        ∧ (after.node ref).withoutWindows
          = (newNode input.id input.source input.revision action input.anchor).withoutWindows := by
  obtain ⟨ref, found, above, below, value⟩ := (accepted.coherent.named.placed input).fresh
    (OrderedMap.get?_eq_some_iff.mp requested) made
  exact ⟨ref, (accepted.mutable?_self actionID).trans found, above,
    accepted.committed.nodeCount ▸ below, (accepted.committed.node ref).trans (congrArg _ value)⟩

/-- Every node of the new plan is a kept or a new one. -/
theorem own_cases (current : after.mutable? input.id actionID = some ref)
    : ∃ action,
        input.actions.get? actionID = some action
        ∧ ((before.kept? input actionID = some ref
            ∧ (after.node ref).withoutWindows
              = (keepNode action (decide (actionID ∈ input.touched)) input.anchor
                  (before.node ref)).withoutWindows)
          ∨ (before.kept? input actionID = none
            ∧ before.nodeHeap.size ≤ ref
            ∧ ref < after.nodeHeap.size
            ∧ (after.node ref).withoutWindows
              = (newNode input.id input.source input.revision action
                  input.anchor).withoutWindows)) := by
  have stored := current
  rw [accepted.mutable?_self] at stored
  have listed := ((accepted.coherent.named.placed input).keys actionID).mp
    (OrderedMap.mem_keys_iff.mpr ⟨ref, stored⟩)
  obtain ⟨⟨_, action⟩, member, rfl⟩ := List.mem_map.mp listed
  have requested := OrderedMap.get?_eq_some_iff.mpr member
  refine ⟨action, requested, ?_⟩
  cases keeps : before.kept? input _ with
  | some old =>
      obtain ⟨found, value⟩ := accepted.node_kept requested keeps
      obtain rfl := Option.some.inj (found.symm.trans current)
      exact .inl ⟨rfl, value⟩
  | none =>
      obtain ⟨new, found, above, below, value⟩ := accepted.node_fresh requested keeps
      obtain rfl := Option.some.inj (found.symm.trans current)
      exact .inr ⟨rfl, above, below, value⟩

/-- The requested action under an id is listed in the checked order. -/
theorem listed (requested : input.actions.get? actionID = some action)
    : action ∈ input.ordered := by
  rw [accepted.checked.listed, accepted.checked.keyed requested]
  exact requested

-- Kept nodes

/-- A kept node is not replaced: its new record is the same execution, and none of its own
parents is replaced.
-/
theorem not_replaced (requested : input.actions.get? actionID = some action)
    (kept : before.kept? input actionID = some ref)
    : (actionID ∈ input.touched → SameExecution (before.node ref).action action)
      ∧ ∀ dependency ∈ action.dependsOn,
          dependency.pin = none → dependency.actionID ∉ before.replaced input := by
  obtain ⟨notReplaced, current⟩ := kept?_eq_some.mp kept
  obtain rfl := accepted.checked.keyed requested
  have stored
      : before.storedAction? (before.current input) action.id = some (before.node ref).action := by
    change (before.mutable? input.id action.id).map _ = _
    rw [current, Option.map_some]
  have keeps := (accepted.checked.replacementPass.decided action
    (accepted.listed requested)).not.mp notReplaced
  refine ⟨fun touched => ?_, fun dependency declared plain replaced => ?_⟩
  · by_contra changed
    exact keeps ⟨_, stored, .inl ⟨touched, changed⟩⟩
  · exact keeps ⟨_, stored, .inr ⟨dependency, declared, plain, replaced⟩⟩

/-- The new record of a kept node is the same execution: it was compared, or it is the
stored record itself.
-/
theorem kept_sameExecution (requested : input.actions.get? actionID = some action)
    (kept : before.kept? input actionID = some ref)
    : SameExecution (before.node ref).action action := by
  by_cases touched : actionID ∈ input.touched
  · exact (accepted.not_replaced requested kept).1 touched
  · have stored := accepted.checked.untouched requested touched
    change (before.mutable? input.id actionID).map _ = _ at stored
    rw [(kept?_eq_some.mp kept).2, Option.map_some] at stored
    rw [Option.some.inj stored]
    exact .refl action

/-- The own parents of a kept node are kept. -/
theorem kept_parent (requested : input.actions.get? actionID = some action)
    (kept : before.kept? input actionID = some ref) (declared : dependency ∈ action.dependsOn)
    (plain : dependency.pin = none)
    : ∃ ancestor, before.kept? input dependency.actionID = some ancestor := by
  obtain ⟨planRef, stored, node⟩ := mutable?_eq_some.mp (kept?_eq_some.mp kept).2
  have before_declared : dependency ∈ (before.node ref).action.dependsOn :=
    (accepted.kept_sameExecution requested kept).dependsOn.mem_iff.mpr declared
  obtain ⟨ancestor, found⟩ := accepted.coherent.linked.own stored node before_declared plain
  exact ⟨ancestor, kept?_eq_some.mpr
    ⟨(accepted.not_replaced requested kept).2 dependency declared plain,
      mutable?_eq_some.mpr ⟨planRef, stored, found⟩⟩⟩

/-- Own parents of requested actions are requested. -/
theorem requested_parent (listed : action ∈ input.ordered)
    (declared : dependency ∈ action.dependsOn) (plain : dependency.pin = none)
    : ∃ ancestor, input.actions.get? dependency.actionID = some ancestor := by
  obtain ⟨init, rest, parts⟩ := List.mem_iff_append.mp listed
  obtain ⟨ancestor, earlier, same⟩ :=
    List.mem_map.mp (accepted.checked.first init action rest parts dependency declared plain)
  refine ⟨ancestor, ?_⟩
  rw [← same, ← accepted.checked.listed, parts]
  exact List.mem_append_left _ earlier

/-- A kept node keeps its identity. -/
theorem kept_identity (requested : input.actions.get? actionID = some action)
    (kept : before.kept? input actionID = some ref)
    : (after.node ref).identity = (before.node ref).identity :=
  (MutableNode.identity_of_withoutWindows (accepted.node_kept requested kept).2).trans rfl

theorem kept_action (requested : input.actions.get? actionID = some action)
    (kept : before.kept? input actionID = some ref)
    : (after.node ref).action = action :=
  (MutableNode.action_of_withoutWindows (accepted.node_kept requested kept).2).trans rfl

-- Survivors

/-- A node that exists before and is current after was current before, under the same plan
and action and with the same identity.
-/
theorem survivor (current : after.mutable? id actionID = some ref)
    (old : ref < before.nodeHeap.size)
    : before.mutable? id actionID = some ref
      ∧ (after.node ref).identity = (before.node ref).identity := by
  by_cases own : id = input.id
  · subst own
    obtain ⟨action, requested, ⟨kept, -⟩ | ⟨-, above, -⟩⟩ := accepted.own_cases current
    · exact ⟨(kept?_eq_some.mp kept).2, accepted.kept_identity requested kept⟩
    · exact absurd old (Nat.not_lt.mpr above)
  · rw [accepted.mutable?_other own] at current
    exact ⟨current, MutableNode.identity_of_withoutWindows (accepted.node_other current own)⟩

/-- A pinned identity that is current after the update was current before it: a new node
has a revision no pin can name yet.
-/
theorem pinned_survivor {child : NodeRef} (current : before.mutable? id actionID = some child)
    (declared : dependency ∈ (before.node child).action.dependsOn) {pin : DependencyPin}
    (pinned : dependency.pin = some pin) {ancestor : NodeRef}
    (found : after.mutable? pin.proposalID dependency.actionID = some ancestor)
    (identity : (after.node ancestor).identity.id = pin.identity)
    : before.mutable? pin.proposalID dependency.actionID = some ancestor
      ∧ (before.node ancestor).identity.id = pin.identity := by
  suffices old : ancestor < before.nodeHeap.size by
    obtain ⟨wasCurrent, same⟩ := accepted.survivor found old
    exact ⟨wasCurrent, by rw [← same]; exact identity⟩
  by_cases own : pin.proposalID = input.id
  · rw [own] at found
    obtain ⟨action, requested, ⟨kept, -⟩ | ⟨-, -, -, value⟩⟩ := accepted.own_cases found
    · exact accepted.coherent.named.nodeRef (kept?_eq_some.mp kept).2
    · obtain ⟨planRef, stored, node⟩ := mutable?_eq_some.mp current
      obtain ⟨-, target, targetStored, -, issued, earlier, text⟩ :=
        accepted.coherent.linked.pinned stored node declared pinned
      have newIdentity
          : (after.node ancestor).identity.id
            = identityText input.source input.id action.id input.revision :=
        congrArg (fun node => node.identity.id) value
      rw [newIdentity, text] at identity
      obtain ⟨-, -, -, revision⟩ := identityText_inj identity
      have fresher := accepted.checked.fresher (own ▸ targetStored)
      omega
  · rw [accepted.mutable?_other own] at found
    exact accepted.coherent.named.nodeRef found

/-- The resolved parents of a survivor were its parents before. -/
theorem parent_of_survivor {child ancestor : NodeRef}
    (current : after.mutable? id actionID = some child) (old : child < before.nodeHeap.size)
    (edge : after.Parent child ancestor)
    : before.Parent child ancestor := by
  obtain ⟨wasCurrent, identity⟩ := accepted.survivor current old
  obtain ⟨planRef, stored, node⟩ := mutable?_eq_some.mp wasCurrent
  have proposalID := (accepted.coherent.named.issued stored node).proposalID
  obtain ⟨dependency, declared, resolved⟩ := parent_iff.mp edge
  rw [identity, proposalID, parent?_eq_some] at resolved
  refine parent_iff.mpr ⟨dependency, ?_⟩
  rw [proposalID, parent?_eq_some]
  by_cases own : id = input.id
  · subst own
    obtain ⟨action, requested, ⟨kept, -⟩ | ⟨-, above, -⟩⟩ := accepted.own_cases current
    · rw [accepted.kept_action requested kept] at declared
      have before_declared : dependency ∈ (before.node child).action.dependsOn :=
        (accepted.kept_sameExecution requested kept).dependsOn.mem_iff.mpr declared
      refine ⟨before_declared, ?_⟩
      cases pinned : dependency.pin with
      | none =>
          simp only [pinned] at resolved ⊢
          obtain ⟨parent, parentKept⟩ := accepted.kept_parent requested kept declared pinned
          obtain ⟨record, requestedParent⟩ :=
            accepted.requested_parent (accepted.listed requested) declared pinned
          have found := (accepted.node_kept requestedParent parentKept).1
          obtain rfl := Option.some.inj (found.symm.trans resolved)
          exact (kept?_eq_some.mp parentKept).2
      | some pin =>
          simp only [pinned] at resolved ⊢
          exact accepted.pinned_survivor wasCurrent before_declared pinned resolved.1 resolved.2
    · exact absurd old (Nat.not_lt.mpr above)
  · have action : (after.node child).action = (before.node child).action :=
      MutableNode.action_of_withoutWindows (accepted.node_other wasCurrent own)
    rw [action] at declared
    refine ⟨declared, ?_⟩
    cases pinned : dependency.pin with
    | none =>
        simp only [pinned] at resolved ⊢
        rwa [accepted.mutable?_other own] at resolved
    | some pin =>
        simp only [pinned] at resolved ⊢
        exact accepted.pinned_survivor wasCurrent declared pinned resolved.1 resolved.2

end

end Accepted

end PlanRuntime

end SpeculativeAction
