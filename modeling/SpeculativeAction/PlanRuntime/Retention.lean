import SpeculativeAction.PlanRuntime.PlanIdentity

/-! Which nodes of a plan a new proposal retains. One pass over the shared order decides it
before the commit decides replacement anew, and the two decisions agree.
-/

namespace SpeculativeAction

open SpeculativeAction.Library

namespace PlanRuntime

-- Retained nodes

/-- The actions of a proposal by id; a later action of an id replaces an earlier one. -/
def offeredActions (upserted : List PlanAction) : OrderedMap String PlanAction :=
  upserted.foldl (fun actions action => actions.set action.id action) .empty

/-- A node of the plan is retained when its own parents are, its pinned ones still resolve,
and the proposal offers the same execution again or nothing in its place; what is not
offered again must have a parent of its own.
-/
inductive Retained (runtime : PlanRuntime) (id : String) (offered : OrderedMap String PlanAction)
    : String → Prop
  | node {actionID : String} {ref : NodeRef} (current : runtime.mutable? id actionID = some ref)
      (own
        : ∀ dependency ∈ (runtime.node ref).action.dependsOn,
            dependency.pin = none → Retained runtime id offered dependency.actionID)
      (pinned
        : ∀ dependency ∈ (runtime.node ref).action.dependsOn,
            dependency.pin ≠ none → (runtime.parent? id dependency).isSome)
      (allowed
        : (∃ replacement,
            offered.get? actionID = some replacement
            ∧ samePlanActionExecution (runtime.node ref).action replacement = true)
          ∨ offered.get? actionID = none
            ∧ ∃ dependency ∈ (runtime.node ref).action.dependsOn, dependency.pin = none)
    : Retained runtime id offered actionID

section

variable {runtime : PlanRuntime} {id : String} {offered : OrderedMap String PlanAction}
  {actionID : String}

/-- Only current nodes are retained. -/
theorem Retained.current (retained : Retained runtime id offered actionID)
    : ∃ ref, runtime.mutable? id actionID = some ref := by
  cases retained with
  | node current => exact ⟨_, current⟩

/-- What it takes for a current node to be retained. -/
theorem retained_iff {ref : NodeRef} (current : runtime.mutable? id actionID = some ref)
    : Retained runtime id offered actionID
      ↔ (∀ dependency ∈ (runtime.node ref).action.dependsOn,
          dependency.pin = none → Retained runtime id offered dependency.actionID)
        ∧ (∀ dependency ∈ (runtime.node ref).action.dependsOn,
          dependency.pin ≠ none → (runtime.parent? id dependency).isSome)
        ∧ ((∃ replacement,
            offered.get? actionID = some replacement
            ∧ samePlanActionExecution (runtime.node ref).action replacement = true)
          ∨ offered.get? actionID = none
            ∧ ∃ dependency ∈ (runtime.node ref).action.dependsOn, dependency.pin = none) := by
  constructor
  · rintro ⟨found, own, pinned, allowed⟩
    obtain rfl := Option.some.inj (found.symm.trans current)
    exact ⟨own, pinned, allowed⟩
  · rintro ⟨own, pinned, allowed⟩
    exact .node current own pinned allowed

/-- The offered actions are those of the proposal. -/
theorem offeredActions_keys {upserted : List PlanAction}
    : actionID ∈ (offeredActions upserted).keys ↔ actionID ∈ upserted.map PlanAction.id := by
  induction upserted using List.reverseRecOn with
  | nil => simp [offeredActions]
  | append_singleton earlier last ih =>
      simp only [offeredActions, List.foldl_append, List.foldl_cons, List.foldl_nil] at ih ⊢
      rw [OrderedMap.mem_keys_set, ih]
      simp [or_comm]

end

-- The retention pass

/-- The result of the pass over the nodes `done`: the retained ones among them, and the
offered actions with the records of those that are not offered again.
-/
structure RetentionPass (runtime : PlanRuntime) (id : String)
    (offered : OrderedMap String PlanAction) (done : List NodeRef)
    (state : OrderedMap String PlanAction × List String)
    : Prop where
  retained
    : ∀ actionID,
        actionID ∈ state.2
        ↔ ∃ ref ∈ done,
            runtime.mutable? id actionID = some ref ∧ Retained runtime id offered actionID
  offers
    : ∀ {actionID action},
        offered.get? actionID = some action → state.1.get? actionID = some action
  absent
    : ∀ {actionID},
        offered.get? actionID = none
        → state.1.get? actionID
          = if actionID ∈ state.2 then
              (runtime.mutable? id actionID).map fun ref => (runtime.node ref).action
            else none

section

variable {runtime : PlanRuntime} {id : String} {offered : OrderedMap String PlanAction}
  {state : OrderedMap String PlanAction × List String}

/-- The two refusals of the pass are the ways not to be retained, once the own parents have
been decided.
-/
theorem RetentionPass.decides {done : List NodeRef}
    (pass : RetentionPass runtime id offered done state) {actionID : String} {ref : NodeRef}
    (current : runtime.mutable? id actionID = some ref) (fresh : ref ∉ done)
    (decided
      : ∀ dependency ∈ (runtime.node ref).action.dependsOn,
          dependency.pin = none
          → ∃ parent ∈ done, runtime.mutable? id dependency.actionID = some parent)
    : (runtime.losesParent id state.2 (runtime.node ref).action
          || refusesRetention (runtime.node ref).action (state.1.get? actionID)) = false
      ↔ Retained runtime id offered actionID := by
  have undecided : actionID ∉ state.2 := fun again => by
    obtain ⟨other, inside, found, -⟩ := (pass.retained actionID).mp again
    obtain rfl := Option.some.inj (found.symm.trans current)
    exact fresh inside
  have kept (dependency : PlanDependency)
      (declared : dependency ∈ (runtime.node ref).action.dependsOn) (plain : dependency.pin = none)
      : dependency.actionID ∈ state.2 ↔ Retained runtime id offered dependency.actionID := by
    rw [pass.retained]
    constructor
    · rintro ⟨parent, -, -, retained⟩
      exact retained
    · intro retained
      obtain ⟨parent, inside, found⟩ := decided dependency declared plain
      exact ⟨parent, inside, found, retained⟩
  have parents : runtime.losesParent id state.2 (runtime.node ref).action = false
      ↔ (∀ dependency ∈ (runtime.node ref).action.dependsOn,
          dependency.pin = none → Retained runtime id offered dependency.actionID)
        ∧ ∀ dependency ∈ (runtime.node ref).action.dependsOn,
          dependency.pin ≠ none → (runtime.parent? id dependency).isSome := by
    unfold losesParent
    rw [List.any_eq_false, ← forall₂_and]
    refine forall₂_congr fun dependency declared => ?_
    cases pinned : dependency.pin with
    | none => simp [kept dependency declared pinned]
    | some pin => simp [Option.isSome_iff_ne_none]
  have allowed : refusesRetention (runtime.node ref).action (state.1.get? actionID) = false
      ↔ (∃ replacement,
          offered.get? actionID = some replacement
          ∧ samePlanActionExecution (runtime.node ref).action replacement = true)
        ∨ offered.get? actionID = none
          ∧ ∃ dependency ∈ (runtime.node ref).action.dependsOn, dependency.pin = none := by
    cases replaced : offered.get? actionID with
    | some replacement => simp [pass.offers replaced, refusesRetention]
    | none => simp [pass.absent replaced, undecided, refusesRetention]
  rw [Bool.or_eq_false_iff, parents, allowed, retained_iff current, and_assoc]

/-- One more node of the order: parents stand before it, so the decision is final. -/
theorem RetentionPass.step (coherent : Coherent runtime) {done : List NodeRef}
    (pass : RetentionPass runtime id offered done state) {ref : NodeRef} (fresh : ref ∉ done)
    (stored
      : ∃ actionID, runtime.mutable? (runtime.node ref).identity.proposalID actionID = some ref)
    (ready : ∀ ancestor, runtime.Parent ref ancestor → ancestor ∈ done)
    : RetentionPass runtime id offered (done ++ [ref]) (runtime.retainStep id state ref) := by
  obtain ⟨actionID, current⟩ := stored
  unfold retainStep
  dsimp only
  split
  · rename_i foreign
    -- a node of another plan decides nothing
    refine ⟨fun otherID => ?_, pass.offers, pass.absent⟩
    rw [pass.retained]
    constructor
    · rintro ⟨other, inside, found, retained⟩
      exact ⟨other, List.mem_append_left _ inside, found, retained⟩
    · rintro ⟨other, inside, found, retained⟩
      rcases List.mem_append.mp inside with earlier | isLast
      · exact ⟨other, earlier, found, retained⟩
      · obtain rfl := List.mem_singleton.mp isLast
        exact absurd (coherent.named.key_unique current found).1 foreign
  · rename_i own
    have own := not_not.mp own
    rw [own] at current
    have keyed : (runtime.node ref).action.id = actionID :=
      (coherent.named.requested current []).keyed
    have decided (dependency : PlanDependency)
        (declared : dependency ∈ (runtime.node ref).action.dependsOn)
        (plain : dependency.pin = none)
        : ∃ parent ∈ done, runtime.mutable? id dependency.actionID = some parent := by
      obtain ⟨planRef, planStored, node⟩ := mutable?_eq_some.mp current
      obtain ⟨parent, found⟩ := coherent.linked.own planStored node declared plain
      have parentCurrent := mutable?_eq_some.mpr ⟨planRef, planStored, found⟩
      refine ⟨parent, ready parent (parent_iff.mpr ⟨dependency, declared, ?_⟩), parentCurrent⟩
      simp only [parent?, plain, own]
      exact parentCurrent
    have decides := pass.decides current fresh decided
    rw [keyed]
    by_cases retained : Retained runtime id offered actionID
    · rw [if_neg (Bool.eq_false_iff.mp (decides.mpr retained))]
      refine ⟨fun otherID => ?_, fun {otherID action} found => ?_, fun {otherID} absent => ?_⟩
      · rw [List.mem_append, List.mem_singleton, pass.retained]
        constructor
        · rintro (⟨other, inside, found, kept⟩ | rfl)
          · exact ⟨other, List.mem_append_left _ inside, found, kept⟩
          · exact ⟨ref, List.mem_append_right _ (List.mem_singleton_self _), current, retained⟩
        · rintro ⟨other, inside, found, kept⟩
          rcases List.mem_append.mp inside with earlier | isLast
          · exact .inl ⟨other, earlier, found, kept⟩
          · obtain rfl := List.mem_singleton.mp isLast
            exact .inr (coherent.named.key_unique found current).2
      · dsimp only
        rw [OrderedMap.get?_set]
        split
        · rename_i same
          rw [same] at found
          rw [pass.offers found, Option.getD_some]
        · exact pass.offers found
      · dsimp only
        rw [OrderedMap.get?_set]
        have undecided : actionID ∉ state.2 := fun again => by
          obtain ⟨other, inside, found, -⟩ := (pass.retained actionID).mp again
          obtain rfl := Option.some.inj (found.symm.trans current)
          exact fresh inside
        split
        · rename_i same
          rw [same] at absent ⊢
          rw [pass.absent absent, if_neg undecided,
            if_pos (List.mem_append_right _ (List.mem_singleton_self _)), current]
          rfl
        · rename_i different
          rw [pass.absent absent]
          simp [different]
    · rw [if_pos (Bool.eq_true_of_not_eq_false fun passes => retained (decides.mp passes))]
      refine ⟨fun otherID => ?_, pass.offers, pass.absent⟩
      rw [pass.retained]
      constructor
      · rintro ⟨other, inside, found, kept⟩
        exact ⟨other, List.mem_append_left _ inside, found, kept⟩
      · rintro ⟨other, inside, found, kept⟩
        rcases List.mem_append.mp inside with earlier | isLast
        · exact ⟨other, earlier, found, kept⟩
        · obtain rfl := List.mem_singleton.mp isLast
          obtain rfl := (coherent.named.key_unique found current).2
          exact absurd kept retained

/-- The whole pass over a dependency-first order, by induction along it. -/
theorem Coherent.retentionPass (coherent : Coherent runtime) {order : List NodeRef}
    (distinct : order.Nodup) (first : DependencyFirst runtime.Parent order)
    (stored
      : ∀ ref ∈ order,
          ∃ actionID, runtime.mutable? (runtime.node ref).identity.proposalID actionID = some ref)
    : RetentionPass runtime id offered order
        (order.foldl (runtime.retainStep id) (offered, [])) := by
  induction order using List.reverseRecOn with
  | nil => exact ⟨by simp, fun found => found, fun absent => by simp [absent]⟩
  | append_singleton done last ih =>
      obtain ⟨init, ready⟩ := DependencyFirst.snoc_iff.mp first
      have apart := List.nodup_append.mp distinct
      rw [List.foldl_append, List.foldl_cons, List.foldl_nil]
      exact (ih apart.1 init fun ref member => stored ref (List.mem_append_left _ member)).step
        coherent (fun again => apart.2.2 _ again _ (List.mem_singleton_self _) rfl)
        (stored last (List.mem_append_right _ (List.mem_singleton_self _))) ready

/-- What a proposal with retention asks for: its own actions, and the stored records of the
retained nodes it does not offer again.
-/
theorem Coherent.requestedActions_retained (coherent : Coherent runtime) (id source : String)
    (revision : ℕ) (upserted : List PlanAction)
    : (∀ {actionID action},
        (offeredActions upserted).get? actionID = some action
        → (runtime.requestedActions (.proposal id source revision upserted true)
            (runtime.plan? id)).get? actionID = some action)
      ∧ ∀ {actionID action},
          (offeredActions upserted).get? actionID = none
          → ((runtime.requestedActions (.proposal id source revision upserted true)
              (runtime.plan? id)).get? actionID = some action
            ↔ Retained runtime id (offeredActions upserted) actionID
              ∧ ∃ ref,
                  runtime.mutable? id actionID = some ref ∧ (runtime.node ref).action = action) := by
  cases found : runtime.plans.get? id with
  | none =>
      have absent : runtime.plan? id = none := by simp [plan?, found]
      have asked : runtime.requestedActions (.proposal id source revision upserted true)
          (runtime.plan? id) = offeredActions upserted := by
        simp only [requestedActions, absent]
        rfl
      rw [asked]
      refine ⟨fun offered => offered, fun {actionID action} unoffered => ?_⟩
      have nothing : runtime.mutable? id actionID = none := by simp [mutable?, absent]
      simp [unoffered, nothing]
  | some planRef =>
      have present : runtime.plan? id = some (runtime.plan planRef) := by simp [plan?, found]
      obtain ⟨order, ordered, lists⟩ := coherent.ordered found
      have stored : ∀ ref ∈ order,
          ∃ actionID, runtime.mutable? (runtime.node ref).identity.proposalID actionID = some ref :=
        fun ref member => coherent.stored_of_ordered found (by rw [ordered]; exact member)
      have pass : RetentionPass runtime id (offeredActions upserted) order
          (order.foldl (runtime.retainStep id) (offeredActions upserted, [])) :=
        coherent.retentionPass lists.distinct lists.first stored
      have asked : runtime.requestedActions (.proposal id source revision upserted true)
            (runtime.plan? id)
          = (order.foldl (runtime.retainStep id) (offeredActions upserted, [])).1 := by
        simp only [requestedActions, present, ordered, Option.getD_some]
        rfl
      rw [asked]
      refine ⟨pass.offers, fun {actionID action} unoffered => ?_⟩
      have complete : actionID ∈ (order.foldl (runtime.retainStep id)
            (offeredActions upserted, [])).2
          ↔ Retained runtime id (offeredActions upserted) actionID := by
        rw [pass.retained]
        constructor
        · intro member
          obtain ⟨ref, -, -, retained⟩ := member
          exact retained
        · intro retained
          obtain ⟨ref, current⟩ := retained.current
          obtain ⟨other, otherStored, node⟩ := mutable?_eq_some.mp current
          obtain rfl := Option.some.inj (otherStored.symm.trans found)
          have shares := (coherent.grouped.members found other).mpr
            ⟨OrderedMap.mem_values_iff.mpr ⟨id, found⟩, rfl⟩
          exact ⟨ref, (lists.listed ref).mpr ⟨other, shares, mem_nodesOf.mpr ⟨actionID, node⟩⟩,
            current, retained⟩
      rw [pass.absent unoffered, ← complete]
      split
      · rename_i retained
        rw [Option.map_eq_some_iff]
        exact ⟨fun stored => ⟨retained, stored⟩, fun both => both.2⟩
      · rename_i lost
        exact iff_of_false (fun stored => by cases stored) fun both => lost both.1

end

-- Survivors of a proposal with retention

namespace Accepted

section

variable {before after : PlanRuntime} {input : CommitInput}
  (accepted : Accepted before input after) {actionID : String} {ref : NodeRef}

include accepted

/-- The identity of a current node survives when its action is requested and not replaced. -/
theorem identitySurvives_iff (current : before.mutable? input.id actionID = some ref)
    : IdentitySurvives before after input.id ref
      ↔ actionID ∈ input.actions.keys ∧ actionID ∉ before.replaced input := by
  obtain ⟨planRef, stored, node⟩ := mutable?_eq_some.mp current
  have present : actionID ∈ (before.plan planRef).nodes.keys :=
    OrderedMap.mem_keys_iff.mpr ⟨ref, node⟩
  have removed : actionID ∈ before.removed input ↔ actionID ∉ input.actions.keys := by
    simp [PlanRuntime.removed, PlanRuntime.current, plan?, stored, present]
  have retired := accepted.mem_retiredIDs current
  rw [List.mem_append, removed] at retired
  rw [← not_iff_not, ← retired, not_and_or, not_not]

variable {source : String} {revision : ℕ}
  (asked
    : input.actions
      = before.requestedActions (.proposal input.id source revision input.upserted true)
          (before.plan? input.id))

include asked

/-- The requested record of a stored node, when it is requested at all: offered again, or
retained as it is.
-/
theorem requested_cases {action : PlanAction}
    (current : before.mutable? input.id actionID = some ref)
    (requested : input.actions.get? actionID = some action)
    : (offeredActions input.upserted).get? actionID = some action
      ∨ (offeredActions input.upserted).get? actionID = none
        ∧ Retained before input.id (offeredActions input.upserted) actionID
        ∧ (before.node ref).action = action := by
  obtain ⟨offers, absent⟩ := accepted.coherent.requestedActions_retained input.id source revision
    input.upserted
  cases offered : (offeredActions input.upserted).get? actionID with
  | some replacement =>
      have same := offers offered
      rw [← asked, requested] at same
      exact .inl same.symm
  | none =>
      rw [asked] at requested
      obtain ⟨retained, other, found, record⟩ := (absent offered).mp requested
      obtain rfl := Option.some.inj (found.symm.trans current)
      exact .inr ⟨rfl, retained, record⟩

/-- What survives was retained, by induction along a dependency-first order of all nodes. -/
theorem retained_of_kept (kept : before.kept? input actionID = some ref)
    (present : actionID ∈ input.actions.keys)
    : Retained before input.id (offeredActions input.upserted) actionID := by
  obtain ⟨order, lists⟩ := accepted.coherent.globalOrder
  have all : ∀ ref ∈ order,
      ∀ actionID, before.kept? input actionID = some ref → actionID ∈ input.actions.keys
        → Retained before input.id (offeredActions input.upserted) actionID := by
    refine lists.first.induction fun ref _ parents actionID kept present => ?_
    obtain ⟨action, requested⟩ := OrderedMap.mem_keys_iff.mp present
    obtain ⟨notReplaced, current⟩ := kept?_eq_some.mp kept
    rcases accepted.requested_cases asked current requested with offered | ⟨-, retained, -⟩
    · have same := accepted.kept_sameExecution requested kept
      obtain ⟨planRef, stored, node⟩ := mutable?_eq_some.mp current
      have own := (accepted.coherent.named.issued stored node).proposalID
      refine .node current (fun dependency declared plain => ?_)
        (fun dependency declared pinned => ?_)
        (.inl ⟨action, offered, samePlanActionExecution_iff.mpr same⟩)
      · have declaredNow := same.dependsOn.mem_iff.mp declared
        obtain ⟨parent, parentKept⟩ := accepted.kept_parent requested kept declaredNow plain
        refine parents parent (parent_iff.mpr ⟨dependency, declared, ?_⟩) _ parentKept
          (OrderedMap.mem_keys_iff.mpr
            (accepted.requested_parent (accepted.listed requested) declaredNow plain))
        simp only [parent?, plain, own]
        exact (kept?_eq_some.mp parentKept).2
      · obtain ⟨pin, named⟩ := Option.ne_none_iff_exists'.mp pinned
        obtain ⟨-, parent, resolves⟩ := accepted.checked.pinned action (accepted.listed requested)
          dependency (same.dependsOn.mem_iff.mp declared) pin named
        rw [resolves]
        rfl
    · exact retained
  obtain ⟨planRef, stored, node⟩ := mutable?_eq_some.mp (kept?_eq_some.mp kept).2
  exact all ref ((lists.listed ref).mpr
    ⟨planRef, OrderedMap.mem_values_iff.mpr ⟨_, stored⟩, mem_nodesOf.mpr ⟨actionID, node⟩⟩)
    actionID kept present

/-- What is retained is requested and not replaced, by induction on its own parents. -/
theorem kept_of_retained
    (retained : Retained before input.id (offeredActions input.upserted) actionID)
    : actionID ∈ input.actions.keys ∧ actionID ∉ before.replaced input := by
  induction retained with
  | @node actionID ref current own pinned allowed ih =>
      obtain ⟨offers, absent⟩ := accepted.coherent.requestedActions_retained input.id source revision
        input.upserted
      have retained := Retained.node current own pinned allowed
      -- the requested record has the dependencies of the stored one
      have record : ∃ action,
          input.actions.get? actionID = some action
          ∧ (before.node ref).action.dependsOn.Perm action.dependsOn
          ∧ (actionID ∈ input.touched → SameExecution (before.node ref).action action) := by
        rcases allowed with ⟨replacement, offered, same⟩ | ⟨unoffered, -⟩
        · have sameExecution := samePlanActionExecution_iff.mp same
          exact ⟨replacement, asked ▸ offers offered, sameExecution.dependsOn, fun _ => sameExecution⟩
        · refine ⟨_, asked ▸ (absent unoffered).mpr ⟨retained, ref, current, rfl⟩, .refl _,
            fun touched => ?_⟩
          have offered := offeredActions_keys.mpr touched
          exact absurd unoffered (Option.ne_none_iff_exists'.mpr (OrderedMap.mem_keys_iff.mp offered))
      obtain ⟨action, requested, dependencies, sameExecution⟩ := record
      refine ⟨OrderedMap.mem_keys_iff.mpr ⟨action, requested⟩, fun replaced => ?_⟩
      obtain rfl := accepted.checked.keyed requested
      obtain ⟨previous, stored, changed⟩ := (accepted.checked.replacementPass.decided action
        (accepted.listed requested)).mp replaced
      change (before.mutable? input.id action.id).map _ = _ at stored
      rw [current, Option.map_some] at stored
      obtain rfl := Option.some.inj stored
      rcases changed with ⟨touched, different⟩ | ⟨dependency, declared, plain, parentReplaced⟩
      · exact different (sameExecution touched)
      · exact (ih dependency (dependencies.mem_iff.mpr declared) plain).2 parentReplaced

/-- The two passes agree: a node survives exactly when it is retained. -/
theorem survives_iff_retained (current : before.mutable? input.id actionID = some ref)
    : IdentitySurvives before after input.id ref
      ↔ Retained before input.id (offeredActions input.upserted) actionID := by
  rw [accepted.identitySurvives_iff current]
  exact ⟨fun kept => accepted.retained_of_kept asked (kept?_eq_some.mpr ⟨kept.2, current⟩) kept.1,
    accepted.kept_of_retained asked⟩

end

end Accepted

-- Proposals with retention over runs

/-- What a handed update is once it is owned. -/
def HandedUpdate.capture? : HandedUpdate → Option PlanUpdate
  | .owned update => some update
  | .offered update => (capture update).toOption

/-- The actions a proposal with retention asks for: its own and the retained ones. -/
def askedActions (runtime : PlanRuntime) (id source : String) (revision : ℕ)
    (upserted : List PlanAction)
    : OrderedMap String PlanAction :=
  runtime.requestedActions (.proposal id source revision upserted true) (runtime.plan? id)

/-- Some action depends on an own action that is missing, or on a pinned one that is of this
plan or no longer resolves.
-/
def Dangling (runtime : PlanRuntime) (id : String) (actions : OrderedMap String PlanAction) : Prop :=
  ∃ actionID action dependency,
    actions.get? actionID = some action
    ∧ dependency ∈ action.dependsOn
    ∧ (dependency.pin = none ∧ actions.get? dependency.actionID = none
      ∨ ∃ pin,
          dependency.pin = some pin
          ∧ (pin.proposalID = id ∨ runtime.parent? id dependency = none))

/-- An own dependency of one action on another. -/
def OwnDependency (actions : OrderedMap String PlanAction) (child ancestor : String) : Prop :=
  ∃ action dependency,
    actions.get? child = some action
    ∧ dependency ∈ action.dependsOn
    ∧ dependency.pin = none
    ∧ dependency.actionID = ancestor

theorem apply_of_capture? {runtime : PlanRuntime} {handed : HandedUpdate} {update : PlanUpdate}
    {anchorDecisionSeq : Number} (captured : handed.capture? = some update)
    : runtime.apply handed anchorDecisionSeq = runtime.applyOwned update anchorDecisionSeq := by
  unfold apply
  cases handed with
  | owned owned =>
      obtain rfl := Option.some.inj captured
      rfl
  | offered offered =>
      unfold HandedUpdate.capture? at captured
      dsimp only at captured ⊢
      cases result : capture offered with
      | error reason =>
          rw [result] at captured
          cases captured
      | ok owned =>
          rw [result] at captured
          obtain rfl := Option.some.inj captured
          rfl

/-- A checked input misses nothing and has no cycle. -/
theorem Checked.complete {runtime : PlanRuntime} {input : CommitInput}
    (checked : Checked runtime input)
    : ¬ Dangling runtime input.id input.actions ∧ Acyclic (OwnDependency input.actions) := by
  have ordered {actionID : String} {action : PlanAction}
      (requested : input.actions.get? actionID = some action)
      : action ∈ input.ordered := by
    rw [checked.listed, checked.keyed requested]
    exact requested
  have parent {action : PlanAction} (listed : action ∈ input.ordered) {dependency : PlanDependency}
      (declared : dependency ∈ action.dependsOn) (plain : dependency.pin = none)
      : dependency.actionID ∈ input.ordered.map PlanAction.id := by
    obtain ⟨init, rest, parts⟩ := List.mem_iff_append.mp listed
    have earlier := checked.first init action rest parts dependency declared plain
    rw [parts, List.map_append]
    exact List.mem_append_left _ earlier
  constructor
  · rintro ⟨actionID, action, dependency, requested, declared,
      ⟨plain, missing⟩ | ⟨pin, pinned, bad⟩⟩
    · obtain ⟨ancestor, listed, same⟩ :=
        List.mem_map.mp (parent (ordered requested) declared plain)
      rw [checked.listed, same, missing] at listed
      cases listed
    · obtain ⟨other, ref, resolves⟩ :=
        checked.pinned action (ordered requested) dependency declared pin pinned
      rcases bad with own | lost
      · exact other own
      · rw [resolves] at lost
        cases lost
  · have first : DependencyFirst (OwnDependency input.actions)
        (input.ordered.map PlanAction.id) := by
      intro before actionID later parts ancestor edge
      obtain ⟨action, dependency, requested, declared, plain, rfl⟩ := edge
      obtain ⟨init, rest, divided, rfl, tail⟩ := List.map_eq_append_iff.mp parts
      obtain ⟨listed, others, rfl, rfl, rfl⟩ := List.map_eq_cons_iff.mp tail
      have same : listed = action := by
        have found := (checked.listed listed).mp (by rw [divided]; simp)
        exact Option.some.inj (found.symm.trans requested)
      exact checked.first init listed others divided dependency (same ▸ declared) plain
    refine first.acyclic checked.distinct fun actionID ancestor edge => ?_
    obtain ⟨action, dependency, requested, declared, plain, rfl⟩ := edge
    exact parent (ordered requested) declared plain

/-- The effect of a proposal with retention on a runtime: exactly the retained nodes survive
when it is accepted, and what cannot be ordered is rejected without effect.
-/
structure RetentionExact (runtime : PlanRuntime) (handed : HandedUpdate) (anchorDecisionSeq : Number)
    (id source : String) (revision : ℕ) (upserted : List PlanAction)
    : Prop where
  survives
    : ∀ plan reported removed retired,
        (runtime.apply handed anchorDecisionSeq).2 = .accepted plan reported removed retired
        → ∀ actionID ref,
            runtime.mutable? id actionID = some ref
            → (IdentitySurvives runtime (runtime.apply handed anchorDecisionSeq).1 id ref
              ↔ Retained runtime id (offeredActions upserted) actionID)
  retired
    : ∀ plan reported removed retired,
        (runtime.apply handed anchorDecisionSeq).2 = .accepted plan reported removed retired
        → ∃ refs : List NodeRef,
            refs.Nodup
            ∧ retired = refs.map runtime.snapshot
            ∧ ∀ ref,
                ref ∈ refs
                ↔ ∃ actionID,
                    runtime.mutable? id actionID = some ref
                    ∧ ¬ Retained runtime id (offeredActions upserted) actionID
  rejected
    : Dangling runtime id (runtime.askedActions id source revision upserted)
        ∨ ¬ Acyclic (OwnDependency (runtime.askedActions id source revision upserted))
      → ∃ reason, runtime.apply handed anchorDecisionSeq = (runtime, .rejected reason)

/-- In every reachable runtime the nodes that survive a proposal with retention are exactly
the retained ones, every other node of its plan is retired, and a proposal that misses an
action or closes a cycle has no effect.
-/
theorem afterOps_retentionExact (ops : List Op) (handed : HandedUpdate) (anchorDecisionSeq : Number)
    (id source : String) (revision : ℕ) (upserted : List PlanAction)
    (captured : handed.capture? = some (.proposal id source revision upserted true))
    : RetentionExact (afterOps ops) handed anchorDecisionSeq id source revision upserted := by
  have coherent := afterOps_coherent ops
  generalize afterOps ops = runtime at coherent
  rcases coherent.applyOwned_asked (.proposal id source revision upserted true) anchorDecisionSeq
    with ⟨reason, same⟩ | ⟨input, checked, own, -, asked, offered, same⟩
  · rw [← apply_of_capture? captured] at same
    refine ⟨fun plan reported removed retired result => ?_,
      fun plan reported removed retired result => ?_, fun _ => ⟨reason, same⟩⟩
    · rw [same] at result
      cases result
    · rw [same] at result
      cases result
  · rw [← apply_of_capture? captured] at same
    dsimp only [PlanUpdate.planID, PlanUpdate.upserted] at own asked offered
    subst own offered
    have accepted : Accepted runtime input (runtime.commit input).1 :=
      ⟨coherent, checked, committed runtime input⟩
    have survives {actionID : String} {ref : NodeRef}
        (current : runtime.mutable? input.id actionID = some ref) :=
      accepted.survives_iff_retained asked current
    refine ⟨fun plan reported removed retired result actionID ref current => ?_,
      fun plan reported removed retired result => ?_, fun broken => ?_⟩
    · rw [same]
      exact survives current
    · rw [same] at result
      obtain ⟨-, -, -, rfl⟩ := UpdateResult.accepted.inj result
      obtain ⟨refs, distinct, listed, members⟩ := accepted.identitySound.retired
      refine ⟨refs, distinct, listed, fun ref => ?_⟩
      rw [members]
      constructor
      · rintro ⟨⟨actionID, current⟩, lost⟩
        exact ⟨actionID, current, fun retained => lost ((survives current).mpr retained)⟩
      · rintro ⟨actionID, current, lost⟩
        exact ⟨⟨actionID, current⟩, fun survived => lost ((survives current).mp survived)⟩
    · obtain ⟨complete, acyclic⟩ := checked.complete
      rw [asked] at complete acyclic
      rcases broken with dangling | cyclic
      · exact absurd dangling complete
      · exact absurd acyclic cyclic

/-- A plan of a root and its dependent, offered again without the dependent. -/
theorem afterOps_retentionExact_dependent
    : let root : PlanAction := ⟨"root", .toolCall, none, "read", ⟨.null, rfl⟩, none, none, none, []⟩
      let dependent : PlanAction :=
        ⟨"dependent", .toolCall, none, "edit", ⟨.null, rfl⟩, none, none, none,
          [⟨"root", none, .executionSucceeded⟩]⟩
      let before :=
        [Op.apply (.owned (.proposal "plan" "source" 1 [root, dependent] false)) (.finite 0)]
      RetentionExact (afterOps before) (.owned (.proposal "plan" "source" 2 [root] true)) (.finite 0)
        "plan" "source" 2 [root] :=
  afterOps_retentionExact _ _ _ "plan" "source" 2 _ rfl

end PlanRuntime

end SpeculativeAction
