import SpeculativeAction.PlanRuntime.Coherence

/-! What an update has passed when it is committed. Its own plan is checked here; edges
into other plans are only required to resolve.
-/

namespace SpeculativeAction

open SpeculativeAction.Library

namespace PlanRuntime

variable {runtime : PlanRuntime} {id : String} {ref : NodeRef}
  {state : OrderedMap String PlanAction × List String}

/-- A commit input that passed the checks of `apply`. -/
structure Checked (runtime : PlanRuntime) (input : CommitInput) : Prop where
  keyed : ∀ {actionID action}, input.actions.get? actionID = some action → action.id = actionID
  listed : ∀ action, action ∈ input.ordered ↔ input.actions.get? action.id = some action
  distinct : (input.ordered.map PlanAction.id).Nodup
  first
    : ∀ before action after,
        input.ordered = before ++ action :: after
        → ∀ dependency ∈ action.dependsOn,
            dependency.pin = none → dependency.actionID ∈ before.map PlanAction.id
  pinned
    : ∀ action ∈ input.ordered,
        ∀ dependency ∈ action.dependsOn,
          ∀ pin,
            dependency.pin = some pin
            → pin.proposalID ≠ input.id ∧ ∃ ref, runtime.parent? input.id dependency = some ref
  untouched
    : ∀ {actionID action},
        input.actions.get? actionID = some action
        → actionID ∉ input.touched
        → runtime.storedAction? (runtime.current input) actionID = some action
  sameSource
    : ∀ {planRef},
        runtime.plans.get? input.id = some planRef → (runtime.plan planRef).source = input.source
  fresher
    : ∀ {planRef},
        runtime.plans.get? input.id = some planRef
        → (runtime.plan planRef).revision < input.revision

-- Requested actions

/-- A requested action stands under its own id, and is offered now or already stored. -/
structure Requested (runtime : PlanRuntime) (id : String) (upserted : List PlanAction)
    (actionID : String) (action : PlanAction)
    : Prop where
  keyed : action.id = actionID
  origin
    : actionID ∈ upserted.map PlanAction.id
      ∨ runtime.storedAction? (runtime.plan? id) actionID = some action

/-- A stored node offers its action under its own key. -/
theorem Named.requested (named : Named runtime) {actionID : String}
    (found : runtime.mutable? id actionID = some ref) (upserted : List PlanAction)
    : Requested runtime id upserted actionID (runtime.node ref).action := by
  obtain ⟨planRef, stored, node⟩ := mutable?_eq_some.mp found
  refine ⟨(named.issued stored node).action, .inr ?_⟩
  change (runtime.mutable? id actionID).map _ = _
  rw [found, Option.map_some]

/-- Retention only sets requested actions: a replacement that is there already, or the
stored action of a node of the plan.
-/
theorem Named.retainStep_requested {upserted : List PlanAction}
    (stored
      : (runtime.node ref).identity.proposalID = id
        → Requested runtime id upserted (runtime.node ref).action.id (runtime.node ref).action)
    (all : state.1.Forall (Requested runtime id upserted))
    : (runtime.retainStep id state ref).1.Forall (Requested runtime id upserted) := by
  rw [retainStep]
  split
  · exact all
  next own =>
    dsimp only
    split
    · exact all
    · refine all.set ?_
      cases found : state.1.get? (runtime.node ref).action.id with
      | none => exact stored (not_not.mp own)
      | some replacement => exact all _ _ found

/-- Every node of a plan's graph that names the plan is stored there. -/
theorem Coherent.stored_of_ordered (coherent : Coherent runtime) {planRef : PlanRef}
    (stored : runtime.plans.get? id = some planRef)
    (member : ref ∈ ((runtime.graph (runtime.plan planRef).graph).ordered.getD []))
    : ∃ actionID, runtime.mutable? (runtime.node ref).identity.proposalID actionID = some ref := by
  obtain ⟨order, ordered, lists⟩ := coherent.ordered stored
  rw [ordered, Option.getD_some] at member
  obtain ⟨other, shares, inPlan⟩ := (lists.listed ref).mp member
  obtain ⟨otherID, otherStored⟩ :=
    OrderedMap.mem_values_iff.mp ((coherent.grouped.members stored other).mp shares).1
  obtain ⟨actionID, found⟩ := mem_nodesOf.mp inPlan
  refine ⟨actionID, mutable?_eq_some.mpr ⟨other, ?_, found⟩⟩
  rw [(coherent.named.issued otherStored found).proposalID, otherStored]

/-- The whole retention pass only sets requested actions, by induction over the order. -/
theorem Named.retention_requested (named : Named runtime) {upserted : List PlanAction}
    {order : List NodeRef}
    (current
      : ∀ ref ∈ order,
          ∃ actionID, runtime.mutable? (runtime.node ref).identity.proposalID actionID = some ref)
    (all : state.1.Forall (Requested runtime id upserted))
    : (order.foldl (runtime.retainStep id) state).1.Forall (Requested runtime id upserted) := by
  induction order generalizing state with
  | nil => exact all
  | cons ref rest ih =>
      refine ih (fun other member => current other (List.mem_cons_of_mem _ member))
        (Named.retainStep_requested (fun own => ?_) all)
      obtain ⟨actionID, found⟩ := current ref (by simp)
      have requested := named.requested found upserted
      rwa [own, ← requested.keyed] at requested

/-- Everything an update asks for is requested, by cases on its kind. -/
theorem Coherent.requestedActions_requested (coherent : Coherent runtime) (update : PlanUpdate)
    : (runtime.requestedActions update (runtime.plan? update.planID)).Forall
        (Requested runtime update.planID update.upserted) := by
  have offered (map : OrderedMap String PlanAction)
      (all : map.Forall (Requested runtime update.planID update.upserted))
      : (update.upserted.foldl (fun actions action => actions.set action.id action) map).Forall
          (Requested runtime update.planID update.upserted) :=
    all.setAll update.upserted fun action member =>
      ⟨rfl, .inl (List.mem_map.mpr ⟨action, member, rfl⟩)⟩
  cases update with
  | delta id source revision upsert remove =>
      cases found : runtime.plans.get? id with
      | none =>
          have absent : runtime.plan? id = none := by simp [plan?, found]
          simp only [PlanUpdate.planID, requestedActions, absent]
          exact offered _ (OrderedMap.Forall.empty.deleteAll remove)
      | some planRef =>
          have present : runtime.plan? id = some (runtime.plan planRef) := by simp [plan?, found]
          simp only [PlanUpdate.planID, requestedActions, present]
          refine offered _ (OrderedMap.Forall.deleteAll remove
            (OrderedMap.Forall.empty.setAll _ fun entry member => ?_))
          obtain ⟨⟨actionID, ref⟩, inPlan, rfl⟩ := List.mem_map.mp member
          exact coherent.named.requested
            (mutable?_eq_some.mpr ⟨planRef, found, OrderedMap.get?_eq_some_iff.mpr inPlan⟩) _
  | proposal id source revision actions retainDescendants =>
      have own := offered _ .empty
      cases retainDescendants with
      | false => exact own
      | true =>
          cases found : runtime.plans.get? id with
          | none =>
              have absent : runtime.plan? id = none := by simp [plan?, found]
              simp only [PlanUpdate.planID, requestedActions, absent]
              exact own
          | some planRef =>
              have present : runtime.plan? id = some (runtime.plan planRef) := by
                simp [plan?, found]
              simp only [PlanUpdate.planID, requestedActions, present]
              exact coherent.named.retention_requested
                (fun ref => coherent.stored_of_ordered found) own

-- The dependency check of an update

section

variable {runtime : PlanRuntime} {id : String} {actions : OrderedMap String PlanAction}

/-- An edge of the check is an own dependency on another requested action. -/
theorem edge_actionDependencies
    (keyed : ∀ {actionID action}, actions.get? actionID = some action → action.id = actionID)
    {actionID ancestor : String}
    (edge : Edge (runtime.actionDependencies id actions) actionID ancestor)
    : ancestor ∈ actions.keys := by
  simp only [Edge, actionDependencies, List.mem_flatMap] at edge
  obtain ⟨dependency, -, member⟩ := edge
  unfold dependencyTarget at member
  split at member
  · split at member <;> simp at member
  · obtain ⟨action, found, same⟩ := Option.map_eq_some_iff.mp (List.mem_singleton.mp member).symm
    rw [← same, keyed found]
    exact OrderedMap.mem_keys_iff.mpr ⟨action, found⟩

/-- The dependencies of a requested action that misses none of them: own ones are edges,
pinned ones name another plan and resolve.
-/
theorem actionDependencies_present
    (keyed : ∀ {actionID action}, actions.get? actionID = some action → action.id = actionID)
    {actionID : String} {action : PlanAction} (found : actions.get? actionID = some action)
    (present : none ∉ runtime.actionDependencies id actions actionID) {dependency : PlanDependency}
    (declared : dependency ∈ action.dependsOn)
    : (dependency.pin = none
        → Edge (runtime.actionDependencies id actions) actionID dependency.actionID)
      ∧ ∀ pin,
          dependency.pin = some pin
          → pin.proposalID ≠ id ∧ ∃ ref, runtime.parent? id dependency = some ref := by
  have contributes {entry : Option String}
      (member : entry ∈ runtime.dependencyTarget id actions dependency)
      : entry ∈ runtime.actionDependencies id actions actionID := by
    simp only [actionDependencies, found, Option.map_some, Option.getD_some]
    exact List.mem_flatMap.mpr ⟨dependency, declared, member⟩
  cases pinned : dependency.pin with
  | none =>
      simp only [dependencyTarget, pinned, List.mem_singleton] at contributes
      refine ⟨fun _ => ?_, fun _ impossible => (Option.some_ne_none _ impossible.symm).elim⟩
      cases own : actions.get? dependency.actionID with
      | none => exact absurd (contributes (by simp [own])) present
      | some ancestor =>
          have named := keyed own
          exact contributes (by simp [own, named])
  | some pin =>
      simp only [dependencyTarget, pinned] at contributes
      refine ⟨fun impossible => (Option.some_ne_none _ impossible).elim, fun other same => ?_⟩
      obtain rfl := Option.some.inj same
      by_cases passes : pin.proposalID ≠ id ∧ (runtime.parent? id dependency).isSome
      · exact ⟨passes.1, Option.isSome_iff_exists.mp passes.2⟩
      · rw [if_neg passes] at contributes
        exact absurd (contributes (by simp)) present

end

/-- Reading back the keys of a list of entries found under them. -/
private theorem map_filterMap_id {actions : OrderedMap String PlanAction} {order : List String}
    (keyed : ∀ {actionID action}, actions.get? actionID = some action → action.id = actionID)
    (stored : ∀ actionID ∈ order, actionID ∈ actions.keys)
    : (order.filterMap actions.get?).map PlanAction.id = order := by
  induction order with
  | nil => rfl
  | cons actionID rest ih =>
      obtain ⟨action, found⟩ := OrderedMap.mem_keys_iff.mp (stored actionID (by simp))
      have tail := ih fun other member => stored other (List.mem_cons_of_mem _ member)
      simp [found, keyed found, tail]

/-- A finished check makes its input a checked one, whatever the update was. -/
theorem Coherent.checked (coherent : Coherent runtime) {update : PlanUpdate}
    {anchorDecisionSeq : Number} {fuel : ℕ} {order : List String}
    (sameSource : (runtime.plan? update.planID).any (·.source ≠ update.source) = false)
    (fresher : (runtime.plan? update.planID).any (update.revision ≤ ·.revision) = false)
    (finished
      : let actions := runtime.requestedActions update (runtime.plan? update.planID)
        dependencyOrder fuel actions.keys (runtime.actionDependencies update.planID actions)
        = .finished order)
    : Checked runtime
        {
          id := update.planID
          source := update.source
          revision := update.revision
          actions := runtime.requestedActions update (runtime.plan? update.planID)
          upserted := update.upserted
          ordered :=
            order.filterMap (runtime.requestedActions update (runtime.plan? update.planID)).get?
          anchorDecisionSeq
        } := by
  have requested := coherent.requestedActions_requested update
  revert requested finished
  generalize runtime.requestedActions update (runtime.plan? update.planID) = actions
  intro finished requested
  have keyed : ∀ {actionID action}, actions.get? actionID = some action → action.id = actionID :=
    fun found => (requested _ _ found).keyed
  have sound := dependencyOrder_finished finished
  have stored : ∀ actionID ∈ order, actionID ∈ actions.keys := by
    intro actionID member
    obtain ⟨root, isRoot, path⟩ := (sound.listed actionID).mp member
    rcases Relation.ReflTransGen.cases_tail path with rfl | ⟨last, -, edge⟩
    · exact isRoot
    · exact edge_actionDependencies keyed edge
  have ids : (order.filterMap actions.get?).map PlanAction.id = order :=
    map_filterMap_id keyed stored
  have listed (action : PlanAction)
      : action ∈ order.filterMap actions.get? ↔ actions.get? action.id = some action := by
    rw [List.mem_filterMap]
    constructor
    · rintro ⟨actionID, -, found⟩
      rwa [keyed found]
    · intro found
      have root := OrderedMap.mem_keys_iff.mpr ⟨action, found⟩
      exact ⟨action.id, (sound.listed action.id).mpr ⟨action.id, root, .refl⟩, found⟩
  have dependencies {action : PlanAction} (member : action ∈ order.filterMap actions.get?)
      {dependency : PlanDependency} (declared : dependency ∈ action.dependsOn) :=
    actionDependencies_present keyed ((listed action).mp member)
      (sound.present action.id (ids ▸ List.mem_map.mpr ⟨action, member, rfl⟩)) declared
  refine {
    keyed
    listed
    distinct := by
      dsimp only
      rw [ids]
      exact sound.distinct
    first := fun before action after parts dependency declared plain => ?_
    pinned := fun action member dependency declared => (dependencies member declared).2
    untouched := fun found fresh => ?_
    sameSource := fun {planRef} found => ?_
    fresher := fun {planRef} found => ?_
  }
  · change order.filterMap actions.get? = before ++ action :: after at parts
    have edge := (dependencies (by rw [parts]; simp) declared).1 plain
    refine sound.first _ action.id (after.map PlanAction.id) ?_ _ edge
    rw [← ids, parts, List.map_append, List.map_cons]
  · exact ((requested _ _ found).origin.resolve_left fresh)
  · simpa [plan?, found] using sameSource
  · simpa [plan?, found] using fresher

/-- An owned update is rejected without effect, or commits what it asks for once that is
checked.
-/
theorem Coherent.applyOwned_asked (coherent : Coherent runtime) (update : PlanUpdate)
    (anchorDecisionSeq : Number)
    : (∃ reason, runtime.applyOwned update anchorDecisionSeq = (runtime, .rejected reason))
      ∨ ∃ input,
          Checked runtime input
          ∧ input.id = update.planID
          ∧ input.anchorDecisionSeq = anchorDecisionSeq
          ∧ input.actions = runtime.requestedActions update (runtime.plan? update.planID)
          ∧ input.upserted = update.upserted
          ∧ runtime.applyOwned update anchorDecisionSeq = runtime.commit input := by
  unfold applyOwned
  extract_lets id current isDelta actions dependencies
  split
  · exact .inl ⟨_, rfl⟩
  · split
    · exact .inl ⟨_, rfl⟩
    next sameSource =>
      split
      · exact .inl ⟨_, rfl⟩
      next fresher =>
        split
        next order finished =>
          exact .inr ⟨_, coherent.checked (Bool.eq_false_iff.mpr sameSource)
            (Bool.eq_false_iff.mpr fresher) finished, rfl, rfl, rfl, rfl, rfl⟩
        · exact .inl ⟨_, rfl⟩

/-- An owned update is rejected without effect, or commits a checked input for its plan. -/
theorem Coherent.applyOwned_cases (coherent : Coherent runtime) (update : PlanUpdate)
    (anchorDecisionSeq : Number)
    : (∃ reason, runtime.applyOwned update anchorDecisionSeq = (runtime, .rejected reason))
      ∨ ∃ input,
          Checked runtime input
          ∧ input.id = update.planID
          ∧ input.anchorDecisionSeq = anchorDecisionSeq
          ∧ runtime.applyOwned update anchorDecisionSeq = runtime.commit input := by
  rcases coherent.applyOwned_asked update anchorDecisionSeq with
    rejected | ⟨input, checked, id, anchor, -, -, same⟩
  · exact .inl rejected
  · exact .inr ⟨input, checked, id, anchor, same⟩

/-- The plan an update is for. -/
def HandedUpdate.planID : HandedUpdate → String
  | .owned update => update.planID
  | .offered (.proposal id ..) => id
  | .offered (.delta proposalID ..) => proposalID

/-- Capturing an update keeps its plan. -/
theorem capture_planID {offered : OfferedUpdate} {owned : PlanUpdate}
    (captured : capture offered = .ok owned)
    : owned.planID = (HandedUpdate.offered offered).planID := by
  cases offered with
  | proposal =>
      simp only [capture] at captured
      repeat' split at captured
      all_goals first | cases captured; rfl | cases captured
  | delta =>
      simp only [capture] at captured
      repeat' split at captured
      all_goals first | cases captured; rfl | cases captured

/-- Any update is rejected without effect, or commits a checked input for its plan. -/
theorem Coherent.apply_cases (coherent : Coherent runtime) (update : HandedUpdate)
    (anchorDecisionSeq : Number)
    : (∃ reason, runtime.apply update anchorDecisionSeq = (runtime, .rejected reason))
      ∨ ∃ input,
          Checked runtime input
          ∧ input.id = update.planID
          ∧ input.anchorDecisionSeq = anchorDecisionSeq
          ∧ runtime.apply update anchorDecisionSeq = runtime.commit input := by
  unfold apply
  cases update with
  | owned update => exact coherent.applyOwned_cases update anchorDecisionSeq
  | offered update =>
      cases captured : capture update with
      | error reason => exact .inl ⟨reason, by simp [captured]⟩
      | ok owned =>
          simp only [captured, ← capture_planID captured]
          exact coherent.applyOwned_cases owned anchorDecisionSeq

end PlanRuntime

end SpeculativeAction
