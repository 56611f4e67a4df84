import Mathlib.Algebra.Order.Group.Multiset
import SpeculativeAction.Library.TransitionSystem
import SpeculativeAction.Library.WeightedSum
import SpeculativeAction.ResultViews.Model

/-! Every proof behind a view or a projection is counted, released once and not before its
last holder let go, and a candidate's bytes are its own and those of its views.
-/

namespace SpeculativeAction.ResultViews

open SpeculativeAction.Library

variable {Output Execution Compatibility Proof : Type}
  {state : State Output Execution Compatibility Proof}
  {candidate : Candidate Output Execution Compatibility Proof}
  {phase : Phase Output Execution Compatibility Proof}

-- The holders of a resource

/-- The projection a preparation or its caller holds. -/
def Phase.projection
    : Phase Output Execution Compatibility Proof
      → Option (Projection Output Execution Compatibility Proof)
  | .validating _ projection | .prepared projection => some projection
  | _ => none

def Phase.resource (phase : Phase Output Execution Compatibility Proof) : Option ℕ :=
  phase.projection.bind Projection.resource

/-- The number of retained views that hold a resource. -/
def viewsHolding (state : State Output Execution Compatibility Proof) (resource : ℕ) : ℕ :=
  (state.candidates.map fun candidate =>
    candidate.resultViews.values.countP fun view => view.resource = some resource).sum

/-- The number of live projections that hold a resource. -/
def projectionsHolding (state : State Output Execution Compatibility Proof) (resource : ℕ)
    : ℕ :=
  state.preparations.countP fun preparation => preparation.phase.resource = some resource

def viewBytes (candidate : Candidate Output Execution Compatibility Proof) : ℚ :=
  (candidate.resultViews.values.map RetainedResultView.bytes).sum

/-- The accounting of one state: references are holders, exactly the resources without
holders were released, once each, and estimated bytes are base bytes and view bytes.
-/
structure Exact (state : State Output Execution Compatibility Proof) : Prop where
  references
    : ∀ (resource : ℕ) (cell : SharedCell ℕ),
        state.resources[resource]? = some cell
        → cell.references
          = (viewsHolding state resource : ℤ) + (projectionsHolding state resource : ℤ)
  released
    : ∀ (resource : ℕ) (cell : SharedCell ℕ),
        state.resources[resource]? = some cell
        → cell.released
          = if viewsHolding state resource + projectionsHolding state resource = 0 then
              1
            else
              0
  allocated
    : ∀ resource : ℕ,
        0 < viewsHolding state resource + projectionsHolding state resource
        → resource < state.resources.length
  bytes
    : ∀ candidate ∈ state.candidates,
        candidate.estimatedBytes = candidate.baseBytes + viewBytes candidate

/-- The resources a candidate's views hold, with multiplicity. -/
def Candidate.held (candidate : Candidate Output Execution Compatibility Proof)
    : Multiset ℕ :=
  (candidate.resultViews.values.map fun view => SharedHeap.holders view.resource).sum

def Preparation.held (preparation : Preparation Output Execution Compatibility Proof)
    : Multiset ℕ :=
  SharedHeap.holders preparation.phase.resource

def projectionsHeld (state : State Output Execution Compatibility Proof) : Multiset ℕ :=
  (state.preparations.map Preparation.held).sum

def held (state : State Output Execution Compatibility Proof) : Multiset ℕ :=
  (state.candidates.map Candidate.held).sum + projectionsHeld state

/-- The invariant of a run, over the multiset of all holders. Only a candidate whose
execution succeeded has views.
-/
structure Balanced (state : State Output Execution Compatibility Proof) : Prop where
  counted : SharedHeap.Counted state.resources (held state)
  bytes
    : ∀ candidate ∈ state.candidates,
        candidate.resultBytes = candidate.ownBytes + viewBytes candidate
  unviewed
    : ∀ candidate ∈ state.candidates,
        candidate.branch = none → candidate.resultViews.entries = []

/-- The branch of the candidate at a position. -/
def branchOf (state : State Output Execution Compatibility Proof) (candidate : ℕ)
    : Option (WorldBranch Output) :=
  (state.candidates[candidate]?).bind Candidate.branch

/-- Counting in a sum of holders is counting the optional references. -/
theorem count_sum_holders {α : Type} (reference : α → Option ℕ) (items : List α) (id : ℕ)
    : (items.map fun item => SharedHeap.holders (reference item)).sum.count id
      = items.countP fun item => reference item = some id := by
  induction items with
  | nil => simp
  | cons item rest ih =>
      rw [List.map_cons, List.sum_cons, Multiset.count_add, ih, List.countP_cons, add_comm]
      cases same : reference item with
      | none => simp
      | some other => by_cases equal : id = other <;> simp [equal, eq_comm]

theorem count_held (state : State Output Execution Compatibility Proof) (resource : ℕ)
    : (held state).count resource
      = viewsHolding state resource + projectionsHolding state resource := by
  have views
      : (state.candidates.map Candidate.held).sum.count resource
        = viewsHolding state resource := by
    unfold viewsHolding
    induction state.candidates with
    | nil => simp
    | cons candidate rest ih =>
        rw [List.map_cons, List.sum_cons, Multiset.count_add, ih, List.map_cons, List.sum_cons,
          Candidate.held, count_sum_holders]
  rw [held, Multiset.count_add, views, projectionsHeld, projectionsHolding]
  exact congrArg _ (count_sum_holders _ state.preparations resource)

/-- The invariant says what is claimed of every state. -/
theorem Balanced.exact (balanced : Balanced state) : Exact state where
  references resource cell found := by
    rw [balanced.counted.references resource cell found, count_held, Nat.cast_add]
  released resource cell found := by
    rw [balanced.counted.released resource cell found, count_held]
  allocated resource positive := by
    rw [← count_held] at positive
    exact balanced.counted.allocated resource (Multiset.count_pos.mp positive)
  bytes candidate member := by
    rw [Candidate.estimatedBytes, Candidate.baseBytes, balanced.bytes candidate member]
    ring

-- One operation

theorem mem_held_of_projection {id : ℕ} (live : id ∈ projectionsHeld state) : id ∈ held state :=
  Multiset.mem_add.mpr (.inr live)

/-- What one item holds is held by all of them together. -/
theorem mem_sum_map {α : Type} {holding : α → Multiset ℕ} {items : List α} {item : α} {id : ℕ}
    (member : item ∈ items) (holds : id ∈ holding item)
    : id ∈ (items.map holding).sum := by
  induction items with
  | nil => simp at member
  | cons head rest ih =>
      rw [List.map_cons, List.sum_cons, Multiset.mem_add]
      rcases List.mem_cons.mp member with rfl | later
      · exact .inl holds
      · exact .inr (ih later)

/-- A preparation's resource is held. -/
theorem resource_mem_projectionsHeld {preparation id : ℕ}
    (found : state.preparations[preparation]? = some record)
    (holds : record.phase.resource = some id)
    : id ∈ projectionsHeld state :=
  mem_sum_map (List.mem_of_getElem? found) (SharedHeap.mem_holders.mpr holds)

/-- A stored view's resource is held. -/
theorem resource_mem_held {candidate id : ℕ} {key : JsString}
    {record : Candidate Output Execution Compatibility Proof}
    {view : RetainedResultView Output Execution Compatibility Proof}
    (found : state.candidates[candidate]? = some record)
    (stored : record.resultViews.get? key = some view) (holds : view.resource = some id)
    : id ∈ held state := by
  have ofView : id ∈ record.held :=
    mem_sum_map (OrderedMap.mem_values_iff.mpr ⟨key, stored⟩) (SharedHeap.mem_holders.mpr holds)
  exact Multiset.mem_add.mpr (.inl (mem_sum_map (List.mem_of_getElem? found) ofView))

/-- Moving a preparation to another phase changes the holders by what the two phases hold. -/
theorem held_setPhase {preparation : ℕ} (found : state.preparations[preparation]? = some record)
    (phase : Phase Output Execution Compatibility Proof)
    : held (setPhase state preparation record phase) + SharedHeap.holders record.phase.resource
      = held state + SharedHeap.holders phase.resource := by
  have balance := sum_map_set Preparation.held { record with phase } found
  simp only [held, projectionsHeld, setPhase, add_assoc]
  exact congrArg _ balance

/-- A preparation that moves between phases without a resource keeps the invariant. -/
theorem Balanced.setPhase (balanced : Balanced state) {preparation : ℕ}
    (found : state.preparations[preparation]? = some record)
    (phase : Phase Output Execution Compatibility Proof)
    (same : phase.resource = record.phase.resource)
    : Balanced (setPhase state preparation record phase) where
  counted := by
    have balance := held_setPhase found phase
    rw [same] at balance
    rw [add_right_cancel balance]
    exact balanced.counted
  bytes := balanced.bytes
  unviewed := balanced.unviewed

/-- A preparation that gives its resource back and holds none afterwards keeps the
invariant.
-/
theorem Balanced.giveBack (balanced : Balanced state) {preparation : ℕ}
    (found : state.preparations[preparation]? = some record) (nothing : phase.resource = none)
    : Balanced
        (ResultViews.setPhase (releaseProjectionResource state record.phase.resource)
          preparation record phase) where
  counted := by
    have balance := held_setPhase found phase
    rw [nothing, SharedHeap.holders_none, add_zero] at balance
    have counted := balanced.counted
    rw [← balance] at counted
    exact counted.dropAny
  bytes := balanced.bytes
  unviewed := balanced.unviewed

/-- Putting a view changes a sum over the views by the weights of the two views. -/
theorem Candidate.sum_putView {M : Type} [AddCommMonoid M]
    (weigh : RetainedResultView Output Execution Compatibility Proof → M)
    (record : Candidate Output Execution Compatibility Proof) (key : JsString)
    (view : Option (RetainedResultView Output Execution Compatibility Proof))
    : ((record.putView key view).resultViews.values.map weigh).sum
        + ((record.resultViews.get? key).map weigh).getD 0
      = (record.resultViews.values.map weigh).sum + (view.map weigh).getD 0 := by
  cases view with
  | none => simpa [putView] using OrderedMap.sum_delete weigh record.resultViews key
  | some view => exact OrderedMap.sum_set weigh record.resultViews key view

/-- Putting a view changes the holders by the two views' resources. -/
theorem held_putView {candidate : ℕ} {key : JsString}
    {record : Candidate Output Execution Compatibility Proof}
    {view : Option (RetainedResultView Output Execution Compatibility Proof)}
    (found : state.candidates[candidate]? = some record)
    (next : Candidate Output Execution Compatibility Proof)
    (views : next.resultViews = (record.putView key view).resultViews)
    : held { state with candidates := state.candidates.set candidate next }
        + SharedHeap.holders
          ((record.resultViews.get? key).bind RetainedResultView.resource)
      = held state + SharedHeap.holders (view.bind RetainedResultView.resource) := by
  have weigh (stored : Option (RetainedResultView Output Execution Compatibility Proof))
      : (stored.map fun view => SharedHeap.holders view.resource).getD 0
        = SharedHeap.holders (stored.bind RetainedResultView.resource) := by
    cases stored <;> rfl
  have ofViews
      : next.held
          + SharedHeap.holders
            ((record.resultViews.get? key).bind RetainedResultView.resource)
        = record.held + SharedHeap.holders (view.bind RetainedResultView.resource) := by
    rw [Candidate.held, Candidate.held, views, ← weigh, ← weigh]
    exact record.sum_putView _ key view
  have balance := sum_map_set Candidate.held next found
  refine add_right_cancel (b := record.held) ?_
  simp only [held, projectionsHeld]
  calc
    _ = ((state.candidates.set candidate next).map Candidate.held).sum + record.held
          + projectionsHeld state
          + SharedHeap.holders
            ((record.resultViews.get? key).bind RetainedResultView.resource) := by
      simp only [projectionsHeld]
      ac_rfl
    _ = (state.candidates.map Candidate.held).sum + projectionsHeld state
          + (next.held
            + SharedHeap.holders
              ((record.resultViews.get? key).bind RetainedResultView.resource)) := by
      rw [balance]
      ac_rfl
    _ = _ := by
      rw [ofViews]
      simp only [projectionsHeld]
      ac_rfl

@[simp] theorem setResultView_preparations (candidate : ℕ) (key : JsString)
    (view : Option (RetainedResultView Output Execution Compatibility Proof))
    : (setResultView state candidate key view).preparations = state.preparations := by
  unfold setResultView
  split
  · rfl
  · dsimp only
    split
    · rfl
    · rfl

theorem Candidate.putView_branch (record : Candidate Output Execution Compatibility Proof)
    (key : JsString) (view : Option (RetainedResultView Output Execution Compatibility Proof))
    : (record.putView key view).branch = record.branch := by
  cases view <;> rfl

@[simp] theorem setResultView_branchOf (candidate : ℕ) (key : JsString)
    (view : Option (RetainedResultView Output Execution Compatibility Proof)) (other : ℕ)
    : branchOf (setResultView state candidate key view) other = branchOf state other := by
  unfold setResultView
  cases found : state.candidates[candidate]? with
  | none => rfl
  | some record =>
      dsimp only
      split
      · rfl
      · have inside := (List.getElem?_eq_some_iff.mp found).1
        simp only [branchOf, releaseProjectionResource, List.getElem?_set, inside, if_true]
        split
        · next same =>
            rw [← same, found]
            exact record.putView_branch key view
        · rfl

/-- A view whose proof a live projection holds may be set for a succeeded candidate; any
view may be dropped.
-/
theorem Balanced.setResultView (balanced : Balanced state) (candidate : ℕ) (key : JsString)
    (view : Option (RetainedResultView Output Execution Compatibility Proof))
    (live
      : ∀ id, view.bind RetainedResultView.resource = some id → id ∈ projectionsHeld state)
    (succeeded : view.isSome → (branchOf state candidate).isSome)
    : Balanced (setResultView state candidate key view) := by
  unfold ResultViews.setResultView
  cases found : state.candidates[candidate]? with
  | none => exact balanced
  | some record =>
      dsimp only
      split
      · exact balanced
      · next replaced =>
        refine ⟨?_, ?_, ?_⟩
        · refine SharedHeap.Counted.dropAny _ ?_
          have borrowed := balanced.counted.borrowAny
            (view.bind RetainedResultView.resource)
            fun id holds => mem_held_of_projection (live id holds)
          rw [← held_putView found ((record.putView key view).setEstimatedBytes _) rfl] at borrowed
          exact borrowed
        · intro other member
          rcases List.mem_or_eq_of_mem_set member with old | rfl
          · exact balanced.bytes other old
          · have before := balanced.bytes record (List.mem_of_getElem? found)
            have change := record.sum_putView RetainedResultView.bytes key view
            have own : (record.putView key view).ownBytes = record.ownBytes := by
              cases view <;> rfl
            have captured
                : (record.putView key view).capturedBytes = record.capturedBytes := by
              cases view <;> rfl
            simp only [Candidate.setEstimatedBytes, Candidate.estimatedBytes, viewBytes, own,
              captured] at before change ⊢
            linarith
        · intro other member unsettled
          rcases List.mem_or_eq_of_mem_set member with old | rfl
          · exact balanced.unviewed other old unsettled
          · have branch : record.branch = none := by
              rw [← unsettled]
              exact (record.putView_branch key view).symm
            have empty := balanced.unviewed record (List.mem_of_getElem? found) branch
            rw [branchOf, found, Option.bind_some, branch] at succeeded
            cases view with
            | none => simp [OrderedMap.get?, empty] at replaced
            | some view => cases succeeded rfl

/-- Dropping a view needs no live projection. -/
theorem Balanced.dropResultView (balanced : Balanced state) (candidate : ℕ) (key : JsString)
    : Balanced (ResultViews.setResultView state candidate key none) :=
  balanced.setResultView candidate key none (fun _ holds => by cases holds)
    fun present => by cases present

@[simp] theorem evictViews_preparations (candidate : ℕ) (settings : Settings) (bytes : ℚ)
    (keys : List JsString) (state : State Output Execution Compatibility Proof)
    : (evictViews candidate settings bytes keys state).preparations = state.preparations := by
  induction keys generalizing state with
  | nil => rfl
  | cons key rest ih =>
      unfold evictViews
      split
      · rfl
      · split
        · rw [ih, setResultView_preparations]
        · rfl

@[simp] theorem evictViews_branchOf (candidate : ℕ) (settings : Settings) (bytes : ℚ)
    (keys : List JsString) (state : State Output Execution Compatibility Proof) (other : ℕ)
    : branchOf (evictViews candidate settings bytes keys state) other
      = branchOf state other := by
  induction keys generalizing state with
  | nil => rfl
  | cons key rest ih =>
      unfold evictViews
      split
      · rfl
      · split
        · rw [ih, setResultView_branchOf]
        · rfl

theorem Balanced.evictViews (candidate : ℕ) (settings : Settings) (bytes : ℚ) (keys : List JsString)
    (balanced : Balanced state)
    : Balanced (evictViews candidate settings bytes keys state) := by
  induction keys generalizing state with
  | nil => exact balanced
  | cons key rest ih =>
      unfold ResultViews.evictViews
      split
      · exact balanced
      · split
        · exact ih (balanced.dropResultView candidate key)
        · exact balanced

/-- Retention keeps the invariant for a projection that is live while it runs. -/
theorem Balanced.retainResultView (balanced : Balanced state) (host : Host Output) (candidate : ℕ)
    (action : JsString) (projection : Projection Output Execution Compatibility Proof)
    (settings : Settings) (live : ∀ id, projection.resource = some id → id ∈ projectionsHeld state)
    (succeeded : (branchOf state candidate).isSome)
    : Balanced (retainResultView state host candidate action projection settings).1 := by
  unfold ResultViews.retainResultView
  have dropped := balanced.dropResultView candidate action
  split
  · split
    · exact balanced
    · dsimp only
      split
      · exact dropped
      · split
        · exact dropped.evictViews ..
        -- The kept resource is none where the proof is left out, else the projection's.
        · split
          · split
            · refine (dropped.evictViews ..).setResultView candidate action _ ?_ fun _ => ?_
              · intro id holds
                cases holds
              · rw [evictViews_branchOf, setResultView_branchOf]
                exact succeeded
            · exact dropped.evictViews ..
          · split
            · refine (dropped.evictViews ..).setResultView candidate action _ ?_ fun _ => ?_
              · intro id holds
                rw [projectionsHeld, evictViews_preparations, setResultView_preparations]
                exact live id holds
              · rw [evictViews_branchOf, setResultView_branchOf]
                exact succeeded
            · exact dropped.evictViews ..
  · exact balanced

theorem Balanced.removeCandidate (balanced : Balanced state) (candidate : ℕ)
    : Balanced (removeCandidate state candidate) := by
  unfold ResultViews.removeCandidate
  cases found : state.candidates[candidate]? with
  | none => exact balanced
  | some record =>
      dsimp only
      have dropAll (keys : List JsString)
          (state : State Output Execution Compatibility Proof) (balanced : Balanced state)
          : Balanced
              (keys.foldl (fun state key => ResultViews.setResultView state candidate key none)
                state) := by
        induction keys generalizing state with
        | nil => exact balanced
        | cons key rest ih => exact ih _ (balanced.dropResultView candidate key)
      refine dropAll _ _ ⟨?_, ?_, ?_⟩
      · have balance := sum_map_set Candidate.held { record with stored := false } found
        have same : Candidate.held { record with stored := false } = record.held := rfl
        rw [same] at balance
        have counted := balanced.counted
        rw [held, ← add_right_cancel balance] at counted
        exact counted
      · intro other member
        rcases List.mem_or_eq_of_mem_set member with old | rfl
        · exact balanced.bytes other old
        · exact balanced.bytes record (List.mem_of_getElem? found)
      · intro other member
        rcases List.mem_or_eq_of_mem_set member with old | rfl
        · exact balanced.unviewed other old
        · exact balanced.unviewed record (List.mem_of_getElem? found)

-- One preparation

/-- A projection that starts holding a counted resource keeps the invariant. -/
theorem Balanced.startHolding (balanced : Balanced state) {preparation : ℕ}
    (found : state.preparations[preparation]? = some record) (idle : record.phase.resource = none)
    {resources : List (SharedCell ℕ)}
    (counted
      : SharedHeap.Counted resources (held state + SharedHeap.holders phase.resource))
    : Balanced (ResultViews.setPhase { state with resources } preparation record phase) where
  counted := by
    have balance := held_setPhase found phase
    rw [idle, SharedHeap.holders_none, add_zero] at balance
    rw [← balance] at counted
    exact counted
  bytes := balanced.bytes
  unviewed := balanced.unviewed

variable {preparation : ℕ} {record : Preparation Output Execution Compatibility Proof}
  {mode : Mode}

/-- Serving a kept view shares its resource with one more projection. -/
theorem Balanced.projectOutput (balanced : Balanced state) (host : Host Output)
    (found : state.preparations[preparation]? = some record) (idle : record.phase.resource = none)
    (stored : state.candidates[record.candidate]? = some candidate) (branch : WorldBranch Output)
    : Balanced
        (ResultViews.projectOutput state host preparation record mode candidate branch) := by
  unfold ResultViews.projectOutput
  dsimp only
  split
  · exact balanced.setPhase found _ idle.symm
  · cases served : servedView candidate branch record.action mode with
    | none =>
        dsimp only
        split
        · exact balanced.setPhase found _ idle.symm
        · exact balanced.setPhase found _ idle.symm
    | some view =>
        have kept : candidate.resultViews.get? record.action = some view := by
          unfold servedView at served
          split at served
          · exact Option.eq_some_of_filter_eq_some served
          · cases served
        dsimp only
        cases host.cloneSharedData view.output with
        | none => exact balanced.setPhase found _ idle.symm
        | some output =>
            refine balanced.startHolding found idle ?_
            exact balanced.counted.borrowAny view.resource fun id holds =>
              resource_mem_held stored kept holds

/-- A rebuilt proof starts with one reference, for the projection it is handed to. -/
theorem Balanced.finishProjection (balanced : Balanced state)
    (found : state.preparations[preparation]? = some record) (idle : record.phase.resource = none)
    (branch : WorldBranch Output) (measured : Measured Output Execution Compatibility Proof)
    : Balanced
        (ResultViews.finishProjection state preparation record mode branch measured) := by
  have discard (discarded : List ℕ)
      : Balanced (ResultViews.setPhase { state with discarded } preparation record .finished) := by
    have moved := balanced.setPhase found .finished idle.symm
    exact ⟨moved.counted, moved.bytes, moved.unviewed⟩
  unfold ResultViews.finishProjection
  cases measured with
  | failed => exact balanced.setPhase found _ idle.symm
  | done ruled rebuilt computation =>
      dsimp only
      split
      · exact discard _
      · split
        · exact discard _
        · refine balanced.startHolding found idle ?_
          generalize Option.bind _ Rebuilt.dispose = dispose
          cases dispose with
          | none => simpa [Phase.resource, Phase.projection] using balanced.counted
          | some disposer =>
              have fresh := balanced.counted.alloc disposer
              rw [← Multiset.singleton_add, Multiset.add_comm] at fresh
              exact fresh

/-- A retry holds nothing. -/
theorem retryPhase_resource (mode : Mode)
    (projection : Projection Output Execution Compatibility Proof) (branch : WorldBranch Output)
    (status : ValidationStatus) (inputsAllowed : Bool)
    : (retryPhase mode projection branch status inputsAllowed).resource = none := by
  unfold retryPhase
  split
  · split
    · rfl
    · split <;> rfl
  · rfl

/-- A projection that fails validation gives its resource back. -/
theorem Balanced.finishValidation (balanced : Balanced state)
    {projection : Projection Output Execution Compatibility Proof}
    (found : state.preparations[preparation]? = some record)
    (phase : record.phase = .validating mode projection) (branch : WorldBranch Output)
    (status : ValidationStatus) (inputsAllowed : Bool)
    : Balanced
        (ResultViews.finishValidation state preparation record mode projection branch status
          inputsAllowed) := by
  have holds : record.phase.resource = projection.resource := by
    rw [phase]
    rfl
  unfold ResultViews.finishValidation
  split
  · exact balanced.setPhase found _ holds.symm
  · rw [← holds]
    exact balanced.giveBack found (retryPhase_resource ..)

/-- Resuming a preparation keeps the invariant, phase by phase. -/
theorem Balanced.stepPreparation (balanced : Balanced state) (host : Host Output)
    (found : state.preparations[preparation]? = some record)
    (stored : state.candidates[record.candidate]? = some candidate) {branch : WorldBranch Output}
    (succeeded : candidate.branch = some branch)
    (event : Event Output Execution Compatibility Proof)
    : Balanced
        (ResultViews.stepPreparation host state preparation record candidate branch event) := by
  unfold ResultViews.stepPreparation
  split
  case h_1 _ _ phase => exact balanced.setPhase found _ (by rw [phase]; rfl)
  case h_2 _ _ _ phase => exact balanced.projectOutput host found (by rw [phase]; rfl) stored _
  case h_3 _ _ _ _ phase => exact balanced.finishProjection found (by rw [phase]; rfl) _ _
  case h_4 _ _ _ _ _ _ phase => exact balanced.finishValidation found phase _ _ _
  case h_5 _ _ _ projection phase =>
    split
    · exact balanced
    · refine balanced.retainResultView host _ _ _ _ (fun id holds => ?_) ?_
      · refine resource_mem_projectionsHeld found ?_
        rw [phase]
        exact holds
      · rw [branchOf, stored, Option.bind_some, succeeded]
        rfl
  case h_6 _ _ projection phase =>
    have holds : record.phase.resource = projection.resource := by
      rw [phase]
      rfl
    rw [← holds]
    exact balanced.giveBack found rfl
  case h_7 => exact balanced

-- Runs

theorem initial_balanced : Balanced (initial : State Output Execution Compatibility Proof) where
  counted := SharedHeap.counted_nil
  bytes := by simp [initial]
  unviewed := by simp [initial]

/-- Changing a candidate outside its views keeps the invariant when its bytes still add up
and a branch it has stays.
-/
theorem Balanced.stepCandidate (balanced : Balanced state) (candidate : ℕ)
    (change
      : Candidate Output Execution Compatibility Proof
        → Candidate Output Execution Compatibility Proof)
    (views : ∀ record, (change record).resultViews = record.resultViews)
    (branch : ∀ record, (change record).branch = none → record.branch = none)
    (bytes
      : ∀ record ∈ state.candidates,
          (change record).resultBytes = (change record).ownBytes + viewBytes record)
    : Balanced (ResultViews.stepCandidate state candidate change) := by
  unfold ResultViews.stepCandidate
  cases found : state.candidates[candidate]? with
  | none =>
      rw [List.modify_eq_self (List.getElem?_eq_none_iff.mp found)]
      exact balanced
  | some record =>
      have present := List.mem_of_getElem? found
      have modified : state.candidates.modify candidate change
          = state.candidates.set candidate (change record) := by
        rw [List.modify_eq_set_getElem?, found]
        rfl
      rw [modified]
      refine ⟨?_, ?_, ?_⟩
      · have balance := sum_map_set Candidate.held (change record) found
        have same : Candidate.held (change record) = record.held := by
          rw [Candidate.held, Candidate.held, views]
        rw [same] at balance
        have counted := balanced.counted
        rw [held, ← add_right_cancel balance] at counted
        exact counted
      · intro other member
        rcases List.mem_or_eq_of_mem_set member with old | rfl
        · exact balanced.bytes other old
        · rw [bytes record present, viewBytes, viewBytes, views]
      · intro other member unsettled
        rcases List.mem_or_eq_of_mem_set member with old | rfl
        · exact balanced.unviewed other old unsettled
        · rw [views]
          exact balanced.unviewed record present (branch record unsettled)

/-- Every event keeps the invariant. -/
theorem Balanced.step (host : Host Output) (balanced : Balanced state)
    (event : Event Output Execution Compatibility Proof)
    : Balanced (step host state event) := by
  cases event with
  | createCandidate bytes =>
      refine ⟨?_, ?_, ?_⟩
      · have same
            : held (ResultViews.step host state (.createCandidate bytes)) = held state := by
          simp [ResultViews.step, held, projectionsHeld, Candidate.held, OrderedMap.values,
            OrderedMap.empty]
        rw [same]
        exact balanced.counted
      · intro candidate member
        rcases List.mem_append.mp member with old | new
        · exact balanced.bytes candidate old
        · rw [List.mem_singleton.mp new]
          simp [viewBytes, OrderedMap.values, OrderedMap.empty]
      · intro candidate member
        rcases List.mem_append.mp member with old | new
        · exact balanced.unviewed candidate old
        · rw [List.mem_singleton.mp new]
          simp [OrderedMap.empty]
  | assignBytes candidate bytes =>
      refine balanced.stepCandidate candidate _ ?_ ?_ ?_
      · intro record
        split <;> rfl
      · intro record unsettled
        split at unsettled <;> exact unsettled
      · intro record present
        split
        · next running =>
            have unsettled := Option.isNone_iff_eq_none.mp running
            have empty := balanced.unviewed record present unsettled
            simp [Candidate.setEstimatedBytes, Candidate.capturedBytes, unsettled, viewBytes,
              OrderedMap.values, empty]
        · exact balanced.bytes record present
  | succeed candidate branch =>
      refine balanced.stepCandidate candidate _ ?_ ?_ ?_
      · intro record
        split <;> rfl
      · intro record unsettled
        split at unsettled
        · cases unsettled
        · exact unsettled
      · intro record present
        split
        · exact balanced.bytes record present
        · exact balanced.bytes record present
  | recount candidate bytes =>
      refine balanced.stepCandidate candidate _ (fun _ => rfl) ?_ ?_
      · intro record unsettled
        exact Option.map_eq_none_iff.mp unsettled
      · intro record present
        exact balanced.bytes record present
  | removeCandidate candidate => exact balanced.removeCandidate candidate
  | prepare candidate action matchKind caller =>
      unfold ResultViews.step
      dsimp only
      split
      · refine ⟨?_, balanced.bytes, balanced.unviewed⟩
        have same
            : held
                { state with
                  preparations := state.preparations
                    ++ [⟨candidate, action, matchKind, caller, .projecting .cached⟩] }
              = held state := by
          simp [held, projectionsHeld, Preparation.held, Phase.resource, Phase.projection]
        exact same ▸ balanced.counted
      · exact balanced
  | stop preparation | project preparation | measured preparation _
  | validated preparation _ _ | retain preparation _ | release preparation =>
      unfold ResultViews.step
      dsimp only
      split
      · exact balanced
      · next record found =>
        split
        · exact balanced
        · next candidate stored =>
          split
          · exact balanced
          · next branch succeeded => exact balanced.stepPreparation host found stored succeeded _

/-- In every reachable state a resource's references are the retained views and the live
projections that hold it, it was handed to the lifecycle once when nobody holds it and not
at all otherwise, and estimated bytes are base bytes and view bytes.
-/
theorem afterEvents_viewsExact (host : Host Output)
    (events : List (Event Output Execution Compatibility Proof))
    : Exact (runAll (step host) initial events) :=
  (runAll_invariant Balanced initial_balanced
    (fun _ event balanced => balanced.step host event) events).exact

end SpeculativeAction.ResultViews
