import Mathlib.Data.List.Induction
import SpeculativeAction.PlanRuntime.UpdateChecks

/-! Which nodes a commit replaces, and the nodes of the new plan. One pass in dependency
order decides all replacements, because a parent is decided before its dependents.
-/

namespace SpeculativeAction

open SpeculativeAction.Library

namespace PlanRuntime

variable {runtime : PlanRuntime} {current : Option MutablePlan} {input : CommitInput}

-- The replaced actions

/-- A stored action is replaced when it is offered anew and changed, or when one of its own
parents is replaced.
-/
def Replaces (runtime : PlanRuntime) (current : Option MutablePlan) (touched replaced : List String)
    (action : PlanAction)
    : Prop :=
  ∃ previous,
    runtime.storedAction? current action.id = some previous
    ∧ ((action.id ∈ touched ∧ ¬ SameExecution previous action)
      ∨ ∃ dependency ∈ action.dependsOn,
          dependency.pin = none ∧ dependency.actionID ∈ replaced)

/-- One step of the pass adds the action exactly when it is replaced. -/
theorem replaceStep_eq (runtime : PlanRuntime) (current : Option MutablePlan)
    (touched replaced : List String) (action : PlanAction)
    : (runtime.Replaces current touched replaced action
        ∧ runtime.replaceStep current touched replaced action = replaced ++ [action.id])
      ∨ (¬ runtime.Replaces current touched replaced action
        ∧ runtime.replaceStep current touched replaced action = replaced) := by
  unfold replaceStep
  cases stored : runtime.storedAction? current action.id with
  | none =>
      refine .inr ⟨?_, rfl⟩
      rintro ⟨previous, found, -⟩
      simp [stored] at found
  | some previous =>
      have decided
          : (decide (action.id ∈ touched) && !samePlanActionExecution previous action
              || action.dependsOn.any fun dependency =>
                dependency.pin.isNone && decide (dependency.actionID ∈ replaced)) = true
            ↔ runtime.Replaces current touched replaced action := by
        simp [Replaces, stored, List.any_eq_true, ← samePlanActionExecution_iff]
      by_cases replaces : runtime.Replaces current touched replaced action
      · exact .inl ⟨replaces, if_pos (decided.mpr replaces)⟩
      · exact .inr ⟨replaces, if_neg fun holds => replaces (decided.mp holds)⟩

/-- Replacement looks at the parents only, so an unrelated replaced id changes nothing. -/
theorem replaces_snoc {touched replaced : List String} {action : PlanAction} {added : String}
    (unrelated
      : ∀ dependency ∈ action.dependsOn, dependency.pin = none → dependency.actionID ≠ added)
    : runtime.Replaces current touched (replaced ++ [added]) action
      ↔ runtime.Replaces current touched replaced action := by
  have same (dependency : PlanDependency) (declared : dependency ∈ action.dependsOn)
      (plain : dependency.pin = none)
      : dependency.actionID ∈ replaced ++ [added] ↔ dependency.actionID ∈ replaced := by
    simp [unrelated dependency declared plain]
  unfold Replaces
  grind

/-- Result of the replacement pass over actions in dependency order. -/
structure ReplacementPass (runtime : PlanRuntime) (current : Option MutablePlan)
    (touched : List String) (ordered : List PlanAction) (replaced : List String)
    : Prop where
  distinct : replaced.Nodup
  listed : ∀ actionID ∈ replaced, actionID ∈ ordered.map PlanAction.id
  decided
    : ∀ action ∈ ordered,
        action.id ∈ replaced ↔ runtime.Replaces current touched replaced action

/-- The pass decides every action against the final result, by induction on the order:
later ids never concern the parents of an earlier action.
-/
theorem replacementPass {touched : List String} {ordered : List PlanAction}
    (distinct : (ordered.map PlanAction.id).Nodup)
    (first
      : ∀ before action after,
          ordered = before ++ action :: after
          → ∀ dependency ∈ action.dependsOn,
              dependency.pin = none → dependency.actionID ∈ before.map PlanAction.id)
    : ReplacementPass runtime current touched ordered
        (runtime.replacedIDs current touched ordered) := by
  induction ordered using List.reverseRecOn with
  | nil => exact ⟨.nil, by simp [replacedIDs], by simp⟩
  | append_singleton ordered last ih =>
      rw [List.map_append, List.nodup_append] at distinct
      have fresh : last.id ∉ ordered.map PlanAction.id := fun again =>
        distinct.2.2 _ again _ (by simp) rfl
      have pass := ih distinct.1 fun before action after parts =>
        first before action (after ++ [last]) (by simp [parts])
      have unrelated (action : PlanAction) (member : action ∈ ordered ++ [last])
          (dependency : PlanDependency) (declared : dependency ∈ action.dependsOn)
          (plain : dependency.pin = none)
          : dependency.actionID ≠ last.id := by
        rintro same
        rcases List.mem_append.mp member with earlier | isLast
        · obtain ⟨before, after, rfl⟩ := List.mem_iff_append.mp earlier
          have listed := first before action (after ++ [last]) (by simp) dependency declared plain
          refine fresh ?_
          rw [← same, List.map_append]
          exact List.mem_append_left _ listed
        · obtain rfl := List.mem_singleton.mp isLast
          exact fresh (same ▸ first ordered action [] rfl dependency declared plain)
      have unlisted : last.id ∉ runtime.replacedIDs current touched ordered := fun again =>
        fresh (pass.listed _ again)
      have other (action : PlanAction) (member : action ∈ ordered) : action.id ≠ last.id :=
        fun same => fresh (same ▸ List.mem_map.mpr ⟨action, member, rfl⟩)
      have unfolded
          : runtime.replacedIDs current touched (ordered ++ [last])
            = runtime.replaceStep current touched (runtime.replacedIDs current touched ordered)
                last := by
        simp [replacedIDs]
      rw [unfolded]
      rcases runtime.replaceStep_eq current touched (runtime.replacedIDs current touched ordered)
        last with ⟨replaces, result⟩ | ⟨keeps, result⟩
      · rw [result]
        refine ⟨?_, ?_, ?_⟩
        · exact List.nodup_append.mpr
            ⟨pass.distinct, List.nodup_singleton _, fun left inLeft right inRight same =>
              unlisted (List.mem_singleton.mp inRight ▸ same ▸ inLeft)⟩
        · intro actionID member
          rw [List.map_append]
          rcases List.mem_append.mp member with earlier | isLast
          · exact List.mem_append_left _ (pass.listed _ earlier)
          · exact List.mem_append_right _ (by simpa using isLast)
        · intro action member
          rw [replaces_snoc (unrelated action member)]
          rcases List.mem_append.mp member with earlier | isLast
          · simp [other action earlier, pass.decided action earlier]
          · obtain rfl := List.mem_singleton.mp isLast
            simp [replaces]
      · rw [result]
        refine ⟨pass.distinct, ?_, ?_⟩
        · intro actionID member
          rw [List.map_append]
          exact List.mem_append_left _ (pass.listed _ member)
        · intro action member
          rcases List.mem_append.mp member with earlier | isLast
          · exact pass.decided action earlier
          · obtain rfl := List.mem_singleton.mp isLast
            simp [keeps, unlisted]

theorem Checked.replacementPass (checked : Checked runtime input)
    : ReplacementPass runtime (runtime.current input) input.touched input.ordered
        (runtime.replaced input) :=
  PlanRuntime.replacementPass checked.distinct checked.first

-- The nodes of the new plan

/-- The anchor an update gives to its new and re-anchored nodes. -/
def CommitInput.anchor (input : CommitInput) : ℕ := input.anchorDecisionSeq.nonNegativeCount

/-- The node of an action before the commit, if the action keeps it. -/
def kept? (runtime : PlanRuntime) (input : CommitInput) (actionID : String) : Option NodeRef :=
  if actionID ∈ runtime.replaced input then none else runtime.mutable? input.id actionID

theorem kept?_eq_some {actionID : String} {ref : NodeRef}
    : runtime.kept? input actionID = some ref
      ↔ actionID ∉ runtime.replaced input ∧ runtime.mutable? input.id actionID = some ref := by
  simp only [kept?]
  split <;> simp [*]

/-- Placing an action keeps its node or makes a new one, as `kept?` says. -/
theorem placeNode_eq (runtime : PlanRuntime) (input : CommitInput) (placement : Placement)
    (actionID : String) (action : PlanAction)
    : placeNode input (runtime.current input) (runtime.replaced input) placement (actionID, action)
      = match runtime.kept? input actionID with
        | some ref =>
            {
              nodeHeap :=
                placement.nodeHeap.modify ref
                  (keepNode action (decide (actionID ∈ input.touched)) input.anchor)
              nodes := placement.nodes.set actionID ref
            }
        | none =>
            {
              nodeHeap :=
                placement.nodeHeap.alloc
                  (newNode input.id input.source input.revision action input.anchor)
              nodes := placement.nodes.set actionID placement.nodeHeap.size
            } := by
  have stored
      : ((runtime.current input).bind fun plan => plan.nodes.get? actionID)
        = runtime.mutable? input.id actionID := rfl
  rw [placeNode, stored, kept?]
  cases runtime.mutable? input.id actionID <;>
    by_cases member : actionID ∈ runtime.replaced input <;> simp [member, CommitInput.anchor]

/-- The nodes after placing some entries: kept ones under their new records, new ones at
fresh references, all others untouched.
-/
structure Placed (runtime : PlanRuntime) (input : CommitInput)
    (entries : List (String × PlanAction)) (placement : Placement)
    : Prop where
  grown : runtime.nodeHeap.size ≤ placement.nodeHeap.size
  keys : ∀ actionID, actionID ∈ placement.nodes.keys ↔ actionID ∈ entries.map Prod.fst
  kept
    : ∀ {actionID action ref},
        (actionID, action) ∈ entries
        → runtime.kept? input actionID = some ref
        → placement.nodes.get? actionID = some ref
          ∧ placement.nodeHeap.read ref
            = keepNode action (decide (actionID ∈ input.touched)) input.anchor (runtime.node ref)
  fresh
    : ∀ {actionID action},
        (actionID, action) ∈ entries
        → runtime.kept? input actionID = none
        → ∃ ref,
            placement.nodes.get? actionID = some ref
            ∧ runtime.nodeHeap.size ≤ ref
            ∧ ref < placement.nodeHeap.size
            ∧ placement.nodeHeap.read ref
              = newNode input.id input.source input.revision action input.anchor
  issued
    : ∀ {ref},
        runtime.nodeHeap.size ≤ ref
        → ref < placement.nodeHeap.size
        → ∃ actionID action,
            (actionID, action) ∈ entries
            ∧ runtime.kept? input actionID = none
            ∧ placement.nodes.get? actionID = some ref
  others
    : ∀ {ref},
        ref < runtime.nodeHeap.size
        → (∀ actionID ∈ entries.map Prod.fst, runtime.kept? input actionID ≠ some ref)
        → placement.nodeHeap.read ref = runtime.node ref

/-- Placing one more entry keeps the description, by cases on whether its node is kept. -/
theorem Placed.step (named : Named runtime) {entries : List (String × PlanAction)}
    {placement : Placement} (placed : Placed runtime input entries placement) {actionID : String}
    {action : PlanAction} (fresh : actionID ∉ entries.map Prod.fst)
    : Placed runtime input (entries ++ [(actionID, action)])
        (placeNode input (runtime.current input) (runtime.replaced input) placement
          (actionID, action)) := by
  have other {otherID : String} {stored : PlanAction} (member : (otherID, stored) ∈ entries)
      : otherID ≠ actionID :=
    fun same => fresh (same ▸ List.mem_map.mpr ⟨_, member, rfl⟩)
  have bounded {otherID : String} {ref : NodeRef} (kept : runtime.kept? input otherID = some ref)
      : ref < runtime.nodeHeap.size :=
    named.nodeRef (kept?_eq_some.mp kept).2
  have split {otherID : String} {stored : PlanAction}
      (member : (otherID, stored) ∈ entries ++ [(actionID, action)])
      : (otherID, stored) ∈ entries ∨ (otherID = actionID ∧ stored = action) := by
    simpa using member
  rw [placeNode_eq]
  cases keeps : runtime.kept? input actionID with
  | some ref =>
      have different {otherID : String} {otherRef : NodeRef} (distinct : otherID ≠ actionID)
          (kept : runtime.kept? input otherID = some otherRef)
          : otherRef ≠ ref := by
        rintro rfl
        exact distinct (named.key_unique (kept?_eq_some.mp kept).2 (kept?_eq_some.mp keeps).2).2
      refine ⟨placed.grown, ?_, ?_, ?_, ?_, ?_⟩
      · intro otherID
        simp only [OrderedMap.mem_keys_set, placed.keys, List.map_append, List.mem_append]
        simp [or_comm]
      · intro otherID stored otherRef member kept
        rcases split member with earlier | ⟨rfl, rfl⟩
        · rw [OrderedMap.get?_set, if_neg (other earlier), Heap.read_modify,
            if_neg (different (other earlier) kept)]
          exact placed.kept earlier kept
        · obtain rfl := Option.some.inj (keeps.symm.trans kept)
          rw [OrderedMap.get?_set, if_pos rfl, Heap.read_modify, if_pos rfl]
          refine ⟨rfl, ?_⟩
          rw [placed.others (bounded kept) fun otherID member keptToo => ?_]
          exact fresh ((named.key_unique (kept?_eq_some.mp keptToo).2
            (kept?_eq_some.mp kept).2).2 ▸ member)
      · intro otherID stored member made
        rcases split member with earlier | ⟨rfl, rfl⟩
        · obtain ⟨otherRef, found, above, below, value⟩ := placed.fresh earlier made
          refine ⟨otherRef, ?_, above, below, ?_⟩
          · rw [OrderedMap.get?_set, if_neg (other earlier), found]
          · have later : otherRef ≠ ref := Nat.ne_of_gt (Nat.lt_of_lt_of_le (bounded keeps) above)
            rw [Heap.read_modify, if_neg later, value]
        · simp [keeps] at made
      · intro otherRef above below
        obtain ⟨otherID, stored, member, made, found⟩ := placed.issued above below
        refine ⟨otherID, stored, List.mem_append_left _ member, made, ?_⟩
        rw [OrderedMap.get?_set, if_neg (other member), found]
      · intro otherRef below unkept
        have here : otherRef ≠ ref := by
          rintro rfl
          exact unkept actionID (by simp) keeps
        rw [Heap.read_modify, if_neg here]
        exact placed.others below fun otherID member =>
          unkept otherID (by rw [List.map_append]; exact List.mem_append_left _ member)
  | none =>
      refine ⟨?_, ?_, ?_, ?_, ?_, ?_⟩
      · rw [Heap.size_alloc]
        exact Nat.le_succ_of_le placed.grown
      · intro otherID
        simp only [OrderedMap.mem_keys_set, placed.keys, List.map_append, List.mem_append]
        simp [or_comm]
      · intro otherID stored otherRef member kept
        rcases split member with earlier | ⟨rfl, rfl⟩
        · have old : otherRef ≠ placement.nodeHeap.size :=
            Nat.ne_of_lt (Nat.lt_of_lt_of_le (bounded kept) placed.grown)
          rw [OrderedMap.get?_set, if_neg (other earlier), Heap.read_alloc, if_neg old]
          exact placed.kept earlier kept
        · simp [keeps] at kept
      · intro otherID stored member made
        rcases split member with earlier | ⟨rfl, rfl⟩
        · obtain ⟨otherRef, found, above, below, value⟩ := placed.fresh earlier made
          refine ⟨otherRef, ?_, above, Nat.lt_succ_of_lt below, ?_⟩
          · rw [OrderedMap.get?_set, if_neg (other earlier), found]
          · rw [Heap.read_alloc, if_neg (Nat.ne_of_lt below), value]
        · refine ⟨placement.nodeHeap.size, ?_, placed.grown, Nat.lt_succ_self _, ?_⟩
          · rw [OrderedMap.get?_set, if_pos rfl]
          · rw [Heap.read_alloc, if_pos rfl]
      · intro otherRef above below
        rw [Heap.size_alloc] at below
        by_cases last : otherRef = placement.nodeHeap.size
        · refine ⟨actionID, action, by simp, keeps, ?_⟩
          rw [OrderedMap.get?_set, if_pos rfl, last]
        · obtain ⟨otherID, stored, member, made, found⟩ :=
            placed.issued above (Nat.lt_of_le_of_ne (Nat.le_of_lt_succ below) last)
          refine ⟨otherID, stored, List.mem_append_left _ member, made, ?_⟩
          rw [OrderedMap.get?_set, if_neg (other member), found]
      · intro otherRef below unkept
        rw [Heap.read_alloc, if_neg (Nat.ne_of_lt (Nat.lt_of_lt_of_le below placed.grown))]
        exact placed.others below fun otherID member =>
          unkept otherID (by rw [List.map_append]; exact List.mem_append_left _ member)

/-- The whole placement, by induction over the action entries. -/
theorem Named.placed (named : Named runtime) (input : CommitInput)
    : Placed runtime input input.actions.entries (runtime.placement input) := by
  have distinct := input.actions.distinct
  unfold placement
  revert distinct
  generalize input.actions.entries = entries
  intro distinct
  induction entries using List.reverseRecOn with
  | nil =>
      refine ⟨Nat.le_refl _, by simp, by simp, by simp, ?_, fun _ _ => rfl⟩
      intro ref above below
      exact absurd below (Nat.not_lt.mpr above)
  | append_singleton entries last ih =>
      rw [List.map_append, List.nodup_append] at distinct
      rw [List.foldl_append, List.foldl_cons, List.foldl_nil]
      exact (ih distinct.1).step named fun again => distinct.2.2 _ again _ (by simp) rfl

end PlanRuntime

end SpeculativeAction
