import SpeculativeAction.RuntimeLifecycle.Model

/-! Lane tasks form one chain: each waits for the one enqueued before it, so they run one at a
time in admission order, and the closing task is the last of them.
-/

namespace SpeculativeAction.RuntimeLifecycle

open SpeculativeAction.Library

variable {Resource : Type} {lane next : Lane Resource} {task : ℕ}

-- Reading tasks

def kindAt (lane : Lane Resource) (task : ℕ) : Option (TaskKind Resource) :=
  (lane.tasks[task]?).map LaneTask.kind

def statusAt (lane : Lane Resource) (task : ℕ) : Option Status :=
  (lane.tasks[task]?).map LaneTask.status

theorem hasSettled_iff
    : hasSettled lane task = true ↔ statusAt lane task = some .settled := by
  unfold hasSettled statusAt
  cases lane.tasks[task]? <;> simp

theorem kindAt_setStatus (task other : ℕ) (status : Status)
    : kindAt (setStatus lane task status) other = kindAt lane other := by
  unfold kindAt setStatus
  rw [List.getElem?_modify]
  cases lane.tasks[other]? with
  | none => rfl
  | some record => by_cases same : task = other <;> simp [same]

theorem statusAt_setStatus_self {old : Status} (status : Status)
    (present : statusAt lane task = some old)
    : statusAt (setStatus lane task status) task = some status := by
  obtain ⟨record, found, -⟩ := Option.map_eq_some_iff.mp present
  unfold statusAt setStatus
  rw [List.getElem?_modify, found]
  simp

theorem statusAt_setStatus_other {other : ℕ} (status : Status) (different : other ≠ task)
    : statusAt (setStatus lane task status) other = statusAt lane other := by
  unfold statusAt setStatus
  rw [List.getElem?_modify]
  cases lane.tasks[other]? <;> simp [Ne.symm different]

theorem kindAt_spawn (lane : Lane Resource) (kind : TaskKind Resource) (status : Status) (task : ℕ)
    : kindAt (spawn lane kind status).1 task
      = if task = lane.tasks.length then some kind else kindAt lane task := by
  unfold kindAt spawn
  split
  · next same => simp [same]
  · next different =>
      rcases Nat.lt_or_gt_of_ne different with old | outside
      · rw [List.getElem?_append_left old]
      · rw [List.getElem?_eq_none (by simp; omega), List.getElem?_eq_none (by omega)]

theorem statusAt_spawn (lane : Lane Resource) (kind : TaskKind Resource) (status : Status) (task : ℕ)
    : statusAt (spawn lane kind status).1 task
      = if task = lane.tasks.length then some status else statusAt lane task := by
  unfold statusAt spawn
  split
  · next same => simp [same]
  · next different =>
      rcases Nat.lt_or_gt_of_ne different with old | outside
      · rw [List.getElem?_append_left old]
      · rw [List.getElem?_eq_none (by simp; omega), List.getElem?_eq_none (by omega)]

theorem lt_length_of_kindAt {kind : TaskKind Resource} (found : kindAt lane task = some kind)
    : task < lane.tasks.length := by
  obtain ⟨record, present, -⟩ := Option.map_eq_some_iff.mp found
  exact (List.getElem?_eq_some_iff.mp present).1

theorem kindAt_length (lane : Lane Resource) : kindAt lane lane.tasks.length = none := by
  simp [kindAt]

theorem statusAt_length (lane : Lane Resource) : statusAt lane lane.tasks.length = none := by
  simp [statusAt]

@[simp] theorem track_tasks (task : ℕ) : (track lane task).tasks = lane.tasks := by
  unfold track
  split <;> rfl

@[simp] theorem track_tail (task : ℕ) : (track lane task).tail = lane.tail := by
  unfold track
  split <;> rfl

@[simp] theorem track_closing (task : ℕ) : (track lane task).closing = lane.closing := by
  unfold track
  split <;> rfl

@[simp] theorem track_bodyRuns (task : ℕ) : (track lane task).bodyRuns = lane.bodyRuns := by
  unfold track
  split <;> rfl

@[simp] theorem track_finalizerRuns (task : ℕ)
    : (track lane task).finalizerRuns = lane.finalizerRuns := by
  unfold track
  split <;> rfl

@[simp] theorem track_released (task : ℕ) : (track lane task).released = lane.released := by
  unfold track
  split <;> rfl

@[simp] theorem track_owned (task : ℕ) : (track lane task).owned = lane.owned := by
  unfold track
  split <;> rfl

@[simp] theorem track_disposals (task : ℕ) : (track lane task).disposals = lane.disposals := by
  unfold track
  split <;> rfl

theorem mem_track_work {other : ℕ}
    : other ∈ (track lane task).work ↔ other ∈ lane.work ∨ other = task := by
  unfold track
  split
  · next member =>
      constructor
      · exact .inl
      · rintro (old | rfl)
        · exact old
        · exact member
  · simp

-- The chain of lane tasks

def IsLane (lane : Lane Resource) (task : ℕ) : Prop :=
  ∃ predecessor closing, kindAt lane task = some (.lane predecessor closing)

/-- The status of the closing task follows from where its body stands. -/
def Phase.status : Phase → Status
  | .waiting => .waiting
  | .finished => .settled
  | _ => .running

def Phase.bodyRuns : Phase → ℕ
  | .waiting => 0
  | _ => 1

def Phase.finalizerRuns : Phase → ℕ
  | .finalizing | .drainLast _ | .finished => 1
  | _ => 0

/-- The tail is the last lane task; a lane task waits for the last one before it and has not
started before that settled.
-/
structure Chained (lane : Lane Resource) : Prop where
  tailNone : lane.tail = none → ∀ task, ¬ IsLane lane task
  tailSome
    : ∀ tail, lane.tail = some tail → IsLane lane tail ∧ ∀ task, IsLane lane task → task ≤ tail
  first
    : ∀ task closing,
        kindAt lane task = some (.lane none closing) → ∀ earlier < task, ¬ IsLane lane earlier
  follows
    : ∀ task predecessor closing,
        kindAt lane task = some (.lane (some predecessor) closing)
        → predecessor < task
          ∧ IsLane lane predecessor
          ∧ ∀ earlier < task, IsLane lane earlier → earlier ≤ predecessor
  started
    : ∀ task predecessor closing,
        kindAt lane task = some (.lane (some predecessor) closing)
        → statusAt lane task ≠ some .waiting
        → statusAt lane predecessor = some .settled

/-- The closing task is the tail of the chain, its status and the counted calls follow from
where its body stands.
-/
structure Ordered (lane : Lane Resource) : Prop where
  chain : Chained lane
  closingKind
    : ∀ task predecessor,
        kindAt lane task = some (.lane predecessor true) → closeTask lane = some task
  closingTask
    : ∀ closing,
        lane.closing = some closing
        → lane.tail = some closing.task
          ∧ (∃ predecessor, kindAt lane closing.task = some (.lane predecessor true))
          ∧ statusAt lane closing.task = some closing.phase.status
  bodyRuns : lane.bodyRuns = (lane.closing.map fun closing => closing.phase.bodyRuns).getD 0
  finalizerRuns
    : lane.finalizerRuns
      = (lane.closing.map fun closing => closing.phase.finalizerRuns).getD 0

theorem initial_ordered : Ordered (initial : Lane Resource) where
  chain := {
    tailNone := by
      intro _ task isLane
      obtain ⟨_, _, found⟩ := isLane
      cases found
    tailSome := fun tail found => by cases found
    first := fun task closing found => by cases found
    follows := fun task predecessor closing found => by cases found
    started := fun task predecessor closing found => by cases found
  }
  closingKind task predecessor found := by cases found
  closingTask closing found := by cases found
  bodyRuns := rfl
  finalizerRuns := rfl

/-- A started lane task finds every earlier one settled, by induction along the chain. -/
theorem Chained.settled_of_started (ordered : Chained lane) {earlier later : ℕ}
    (earlierLane : IsLane lane earlier) (laterLane : IsLane lane later) (before : earlier < later)
    (started : statusAt lane later ≠ some .waiting)
    : statusAt lane earlier = some .settled := by
  induction later using Nat.strongRecOn with
  | ind later ih =>
      obtain ⟨predecessor, closing, kind⟩ := laterLane
      cases predecessor with
      | none => exact absurd earlierLane (ordered.first later closing kind earlier before)
      | some predecessor =>
          obtain ⟨smaller, isLane, last⟩ := ordered.follows later predecessor closing kind
          have settled := ordered.started later predecessor closing kind started
          rcases Nat.lt_or_eq_of_le (last earlier before earlierLane) with inside | rfl
          · exact ih predecessor smaller isLane inside (by simp [settled])
          · exact settled

/-- Two states that agree on their lane tasks and tail. -/
structure SameTasks (lane next : Lane Resource) : Prop where
  kinds
    : ∀ task predecessor closing,
        kindAt next task = some (.lane predecessor closing)
        ↔ kindAt lane task = some (.lane predecessor closing)
  statuses : ∀ task, IsLane lane task → statusAt next task = statusAt lane task
  tail : next.tail = lane.tail

/-- Two states that also agree on the closing task and the counted calls. -/
structure SameLane (lane next : Lane Resource) : Prop extends SameTasks lane next where
  closing : next.closing = lane.closing
  bodyRuns : next.bodyRuns = lane.bodyRuns
  finalizerRuns : next.finalizerRuns = lane.finalizerRuns

theorem SameTasks.of_tasks (tasks : next.tasks = lane.tasks) (tail : next.tail = lane.tail)
    : SameTasks lane next where
  kinds task predecessor other := by rw [kindAt, kindAt, tasks]
  statuses task _ := by rw [statusAt, statusAt, tasks]
  tail := tail

theorem SameTasks.isLane (same : SameTasks lane next)
    : IsLane next task ↔ IsLane lane task := by
  unfold IsLane
  simp only [same.kinds]

theorem SameTasks.trans {middle : Lane Resource} (first : SameTasks lane middle)
    (second : SameTasks middle next)
    : SameTasks lane next where
  kinds task predecessor closing :=
    (second.kinds task predecessor closing).trans (first.kinds task predecessor closing)
  statuses task isLane := by
    rw [second.statuses task (first.isLane.mpr isLane), first.statuses task isLane]
  tail := second.tail.trans first.tail

theorem SameLane.trans {middle : Lane Resource} (first : SameLane lane middle)
    (second : SameLane middle next)
    : SameLane lane next where
  toSameTasks := first.toSameTasks.trans second.toSameTasks
  closing := second.closing.trans first.closing
  bodyRuns := second.bodyRuns.trans first.bodyRuns
  finalizerRuns := second.finalizerRuns.trans first.finalizerRuns

theorem Chained.same (chain : Chained lane) (same : SameTasks lane next) : Chained next where
  tailNone absent task isLane :=
    chain.tailNone (same.tail ▸ absent) task (same.isLane.mp isLane)
  tailSome tail found := by
    obtain ⟨isLane, last⟩ := chain.tailSome tail (same.tail ▸ found)
    exact ⟨same.isLane.mpr isLane, fun task other => last task (same.isLane.mp other)⟩
  first task closing kind earlier before isLane :=
    chain.first task closing ((same.kinds ..).mp kind) earlier before (same.isLane.mp isLane)
  follows task predecessor closing kind := by
    obtain ⟨smaller, isLane, last⟩ :=
      chain.follows task predecessor closing ((same.kinds ..).mp kind)
    exact ⟨smaller, same.isLane.mpr isLane,
      fun earlier before other => last earlier before (same.isLane.mp other)⟩
  started task predecessor closing kind started := by
    have old := (same.kinds ..).mp kind
    obtain ⟨-, isLane, -⟩ := chain.follows task predecessor closing old
    rw [same.statuses predecessor isLane]
    rw [same.statuses task ⟨_, _, old⟩] at started
    exact chain.started task predecessor closing old started

theorem Ordered.same (ordered : Ordered lane) (same : SameLane lane next) : Ordered next where
  chain := ordered.chain.same same.toSameTasks
  closingKind task predecessor kind := by
    rw [closeTask, same.closing]
    exact ordered.closingKind task predecessor ((same.kinds ..).mp kind)
  closingTask closing found := by
    obtain ⟨tail, ⟨predecessor, kind⟩, status⟩ := ordered.closingTask closing (same.closing ▸ found)
    refine ⟨same.tail.trans tail, ⟨predecessor, (same.kinds ..).mpr kind⟩, ?_⟩
    rw [same.statuses closing.task ⟨_, _, kind⟩]
    exact status
  bodyRuns := by rw [same.bodyRuns, same.closing, ordered.bodyRuns]
  finalizerRuns := by rw [same.finalizerRuns, same.closing, ordered.finalizerRuns]

-- Changes beside the lane

theorem SameLane.of_tasks (tasks : next.tasks = lane.tasks) (tail : next.tail = lane.tail)
    (closing : next.closing = lane.closing) (bodyRuns : next.bodyRuns = lane.bodyRuns)
    (finalizerRuns : next.finalizerRuns = lane.finalizerRuns)
    : SameLane lane next :=
  ⟨.of_tasks tasks tail, closing, bodyRuns, finalizerRuns⟩

theorem SameLane.refl (lane : Lane Resource) : SameLane lane lane := .of_tasks rfl rfl rfl rfl rfl

theorem sameLane_track (lane : Lane Resource) (task : ℕ) : SameLane lane (track lane task) :=
  .of_tasks (track_tasks task) (track_tail task) (track_closing task) (track_bodyRuns task)
    (track_finalizerRuns task)

/-- A new task outside the lane. -/
theorem sameLane_spawn (lane : Lane Resource) (kind : TaskKind Resource) (status : Status)
    (outside : ∀ predecessor closing, kind ≠ .lane predecessor closing)
    : SameLane lane (spawn lane kind status).1 where
  kinds task predecessor closing := by
    rw [kindAt_spawn]
    split
    · next fresh =>
        rw [fresh, kindAt_length]
        simp [outside]
    · rfl
  statuses task isLane := by
    obtain ⟨_, _, kind⟩ := isLane
    rw [statusAt_spawn, if_neg (Nat.ne_of_lt (lt_length_of_kindAt kind))]
  tail := rfl
  closing := rfl
  bodyRuns := rfl
  finalizerRuns := rfl

/-- A task outside the lane that moves on. -/
theorem sameLane_setStatus (lane : Lane Resource) (status : Status) (outside : ¬ IsLane lane task)
    : SameLane lane (setStatus lane task status) where
  kinds other predecessor closing := by rw [kindAt_setStatus]
  statuses other isLane := by
    refine statusAt_setStatus_other status fun same => ?_
    exact outside (same ▸ isLane)
  tail := rfl
  closing := rfl
  bodyRuns := rfl
  finalizerRuns := rfl

-- Changes of the lane

theorem kindAt_enqueue (lane : Lane Resource) (closing : Bool) (task : ℕ)
    : kindAt (enqueue lane closing).1 task
      = if task = lane.tasks.length then some (.lane lane.tail closing) else kindAt lane task :=
  kindAt_spawn _ _ _ task

theorem statusAt_enqueue (lane : Lane Resource) (closing : Bool) (task : ℕ)
    : statusAt (enqueue lane closing).1 task
      = if task = lane.tasks.length then some .waiting else statusAt lane task :=
  statusAt_spawn _ _ _ task

theorem IsLane.lt_length (isLane : IsLane lane task) : task < lane.tasks.length := by
  obtain ⟨_, _, kind⟩ := isLane
  exact lt_length_of_kindAt kind

/-- Enqueuing appends one lane task. -/
theorem isLane_enqueue {closing : Bool}
    : IsLane (enqueue lane closing).1 task ↔ IsLane lane task ∨ task = lane.tasks.length := by
  unfold IsLane
  simp only [kindAt_enqueue]
  split
  · next same => simp [same]
  · next different => simp [different]

theorem Chained.enqueue (chain : Chained lane) (closing : Bool)
    : Chained (enqueue lane closing).1 where
  tailNone absent := by cases absent
  tailSome tail found := by
    obtain rfl : lane.tasks.length = tail := Option.some.inj found
    refine ⟨isLane_enqueue.mpr (.inr rfl), fun task isLane => ?_⟩
    rcases isLane_enqueue.mp isLane with old | rfl
    · exact Nat.le_of_lt old.lt_length
    · exact Nat.le_refl _
  first task other kind earlier before isLane := by
    rw [kindAt_enqueue] at kind
    split at kind
    · next fresh =>
        have absent : lane.tail = none := by
          injection kind with kind
          injection kind
        rcases isLane_enqueue.mp isLane with old | rfl
        · exact chain.tailNone absent earlier old
        · omega
    · rcases isLane_enqueue.mp isLane with old | rfl
      · exact chain.first task other kind earlier before old
      · have := lt_length_of_kindAt kind
        omega
  follows task predecessor other kind := by
    rw [kindAt_enqueue] at kind
    split at kind
    · next fresh =>
        have tail : lane.tail = some predecessor := by
          injection kind with kind
          injection kind
        obtain ⟨isLane, last⟩ := chain.tailSome predecessor tail
        refine ⟨fresh ▸ isLane.lt_length, isLane_enqueue.mpr (.inl isLane), ?_⟩
        intro earlier before earlierLane
        rcases isLane_enqueue.mp earlierLane with old | rfl
        · exact last earlier old
        · omega
    · obtain ⟨smaller, isLane, last⟩ := chain.follows task predecessor other kind
      refine ⟨smaller, isLane_enqueue.mpr (.inl isLane), ?_⟩
      intro earlier before earlierLane
      rcases isLane_enqueue.mp earlierLane with old | rfl
      · exact last earlier before old
      · have := lt_length_of_kindAt kind
        omega
  started task predecessor other kind started := by
    rw [kindAt_enqueue] at kind
    rw [statusAt_enqueue] at started ⊢
    split at kind
    · next fresh =>
        rw [if_pos fresh] at started
        exact absurd rfl started
    · next different =>
        rw [if_neg different] at started
        obtain ⟨-, isLane, -⟩ := chain.follows task predecessor other kind
        rw [if_neg (Nat.ne_of_lt isLane.lt_length)]
        exact chain.started task predecessor other kind started

/-- A lane task starts or settles: its predecessor has settled, or it has started before. -/
theorem Chained.setStatus (chain : Chained lane) (status : Status)
    (allowed
      : ∀ predecessor closing,
          kindAt lane task = some (.lane (some predecessor) closing)
          → statusAt lane predecessor = some .settled)
    (forward : statusAt lane task = some .settled → status = .settled)
    : Chained (RuntimeLifecycle.setStatus lane task status) := by
  have isLane (other : ℕ)
      : IsLane (RuntimeLifecycle.setStatus lane task status) other ↔ IsLane lane other := by
    unfold IsLane
    simp only [kindAt_setStatus]
  refine ⟨?_, ?_, ?_, ?_, ?_⟩
  · intro absent other
    rw [isLane]
    exact chain.tailNone absent other
  · intro tail found
    rw [isLane]
    simp only [isLane]
    exact chain.tailSome tail found
  · intro other closing kind
    rw [kindAt_setStatus] at kind
    simp only [isLane]
    exact chain.first other closing kind
  · intro other predecessor closing kind
    rw [kindAt_setStatus] at kind
    simp only [isLane]
    exact chain.follows other predecessor closing kind
  · intro other predecessor closing kind started
    rw [kindAt_setStatus] at kind
    have before : statusAt lane predecessor = some .settled := by
      by_cases same : other = task
      · exact allowed predecessor closing (same ▸ kind)
      · rw [statusAt_setStatus_other status same] at started
        exact chain.started other predecessor closing kind started
    by_cases same : predecessor = task
    · rw [same] at before ⊢
      rw [statusAt_setStatus_self status before, forward before]
    · rw [statusAt_setStatus_other status same]
      exact before

-- The closing task

variable {closing : Closing}

section

variable (ordered : Ordered lane)

include ordered

/-- The closing task moves to another phase: its status and the counters follow. -/
theorem Ordered.moved (found : lane.closing = some closing) (chain : Chained next)
    (kinds : ∀ task, kindAt next task = kindAt lane task) (tail : next.tail = lane.tail)
    {phase : Phase} (closes : next.closing = some { closing with phase })
    (status : statusAt next closing.task = some phase.status)
    (bodyRuns : next.bodyRuns = phase.bodyRuns)
    (finalizerRuns : next.finalizerRuns = phase.finalizerRuns)
    : Ordered next where
  chain := chain
  closingKind task predecessor kind := by
    rw [kinds] at kind
    have old := ordered.closingKind task predecessor kind
    rw [closeTask, found] at old
    rw [closeTask, closes]
    exact old
  closingTask other same := by
    obtain rfl := Option.some.inj (closes.symm.trans same)
    obtain ⟨isTail, ⟨predecessor, kind⟩, -⟩ := ordered.closingTask closing found
    exact ⟨tail.trans isTail, ⟨predecessor, (kinds _).trans kind⟩, status⟩
  bodyRuns := by rw [bodyRuns, closes]; rfl
  finalizerRuns := by rw [finalizerRuns, closes]; rfl

theorem Ordered.bodyRuns_of_closing (found : lane.closing = some closing)
    : lane.bodyRuns = closing.phase.bodyRuns := by
  rw [ordered.bodyRuns, found]
  rfl

theorem Ordered.finalizerRuns_of_closing (found : lane.closing = some closing)
    : lane.finalizerRuns = closing.phase.finalizerRuns := by
  rw [ordered.finalizerRuns, found]
  rfl

/-- Moving between two phases of the running body that call nothing. -/
theorem Ordered.setPhase (found : lane.closing = some closing) (phase : Phase)
    (status : phase.status = closing.phase.status)
    (bodyRuns : phase.bodyRuns = closing.phase.bodyRuns)
    (finalizerRuns : phase.finalizerRuns = closing.phase.finalizerRuns)
    : Ordered (setPhase lane closing phase) := by
  refine ordered.moved found (ordered.chain.same (.of_tasks rfl rfl)) (fun _ => rfl)
    rfl rfl ?_ ?_ ?_
  · rw [status]
    exact (ordered.closingTask closing found).2.2
  · rw [bodyRuns]
    exact ordered.bodyRuns_of_closing found
  · rw [finalizerRuns]
    exact ordered.finalizerRuns_of_closing found

-- Calls

/-- An operation enqueued on an open lane. -/
theorem Ordered.enqueue (unsealed : lane.closing = none)
    : Ordered (enqueue lane false).1 where
  chain := ordered.chain.enqueue false
  closingKind task predecessor kind := by
    rw [kindAt_enqueue] at kind
    split at kind
    · cases kind
    · exact ordered.closingKind task predecessor kind
  closingTask closing found := by
    have absent : lane.closing = some closing := found
    rw [unsealed] at absent
    cases absent
  bodyRuns := ordered.bodyRuns
  finalizerRuns := ordered.finalizerRuns

/-- The closing task enqueued on an open lane. -/
theorem Ordered.closeWith (disposing : Bool)
    : Ordered (closeWith lane disposing).1 := by
  unfold RuntimeLifecycle.closeWith
  split
  · exact ordered
  · next unsealed =>
    have absent : lane.closing = none := Option.map_eq_none_iff.mp unsealed
    have fresh : kindAt (RuntimeLifecycle.enqueue lane true).1 lane.tasks.length
        = some (.lane lane.tail true) := by
      rw [kindAt_enqueue, if_pos rfl]
    refine ⟨(ordered.chain.enqueue true).same (.of_tasks rfl rfl), ?_, ?_, ?_, ?_⟩
    · intro task predecessor kind
      have kind : kindAt (RuntimeLifecycle.enqueue lane true).1 task
          = some (.lane predecessor true) := kind
      rw [kindAt_enqueue] at kind
      split at kind
      · next same => rw [same]; rfl
      · have old := ordered.closingKind task predecessor kind
        rw [unsealed] at old
        cases old
    · intro closing found
      obtain rfl := Option.some.inj found
      refine ⟨rfl, ⟨lane.tail, fresh⟩, ?_⟩
      have status := statusAt_enqueue lane true lane.tasks.length
      rw [if_pos rfl] at status
      exact status
    · have none_ := ordered.bodyRuns
      rw [absent] at none_
      exact none_
    · have none_ := ordered.finalizerRuns
      rw [absent] at none_
      exact none_

theorem Ordered.run : Ordered (run lane).1 := by
  unfold RuntimeLifecycle.run
  split
  · exact ordered
  · next unsealed => exact ordered.enqueue (Option.map_eq_none_iff.mp unsealed)

theorem Ordered.admitOperation : Ordered (admitOperation lane).1 := by
  unfold RuntimeLifecycle.admitOperation
  split
  · exact ordered
  · refine ordered.same ((sameLane_spawn lane .admitted .waiting ?_).trans (sameLane_track _ _))
    intro predecessor closing same
    cases same

theorem Ordered.serialize : Ordered (serialize lane).1 := by
  unfold RuntimeLifecycle.serialize
  split
  · exact ordered
  · next unsealed =>
    have absent : lane.closing = none := by
      rw [isSealed, Bool.not_eq_true, Option.isSome_eq_false_iff, Option.isNone_iff_eq_none]
        at unsealed
      exact unsealed
    exact (ordered.enqueue absent).same (sameLane_track _ _)

end

section Calls

variable [DecidableEq Resource]

theorem sameLane_disown (lane : Lane Resource) (resource : Resource)
    : SameLane lane (disown lane resource) :=
  .of_tasks rfl rfl rfl rfl rfl

theorem sameLane_spawnRelease (lane : Lane Resource) (resource : Resource)
    : SameLane lane (spawnRelease lane resource).1 := by
  have spawned := sameLane_spawn lane (.release resource) .waiting fun _ _ same => by
    cases same
  have tracked := spawned.trans (sameLane_track _ lane.tasks.length)
  exact tracked.trans (.of_tasks rfl rfl rfl rfl rfl)

theorem sameLane_release (lane : Lane Resource) (resource : Resource)
    : SameLane lane (release lane resource).1 := by
  unfold release
  split
  · exact sameLane_disown lane resource
  · exact (sameLane_disown lane resource).trans (sameLane_spawnRelease _ resource)

theorem sameLane_own (lane : Lane Resource) (resource : Resource)
    : SameLane lane (own lane resource) := by
  unfold own
  split
  · exact .refl lane
  · split
    · split
      · exact .refl lane
      · exact .of_tasks rfl rfl rfl rfl rfl
    · exact sameLane_release lane resource

theorem sameLane_releaseAll (resources : List Resource) (lane : Lane Resource)
    : SameLane lane (releaseAll resources lane).1 := by
  induction resources generalizing lane with
  | nil => exact .refl lane
  | cons resource rest ih => exact (sameLane_release lane resource).trans (ih _)

end Calls

-- Resumptions

/-- A task whose kind is no lane task is none. -/
theorem not_isLane {kind : TaskKind Resource} (found : kindAt lane task = some kind)
    (outside : ∀ predecessor closing, kind ≠ .lane predecessor closing)
    : ¬ IsLane lane task := by
  rintro ⟨predecessor, closing, isLane⟩
  exact outside predecessor closing (Option.some.inj (found.symm.trans isLane))

/-- A lane task other than the closing one moves on. -/
theorem Ordered.setStatus (ordered : Ordered lane) {status : Status} {predecessor : Option ℕ}
    (kind : kindAt lane task = some (.lane predecessor false))
    (chain : Chained (RuntimeLifecycle.setStatus lane task status))
    : Ordered (RuntimeLifecycle.setStatus lane task status) where
  chain := chain
  closingKind other found isClosing := by
    rw [kindAt_setStatus] at isClosing
    exact ordered.closingKind other found isClosing
  closingTask closing found := by
    obtain ⟨isTail, ⟨before, isClosing⟩, at_⟩ := ordered.closingTask closing found
    refine ⟨isTail, ⟨before, (kindAt_setStatus ..).trans isClosing⟩, ?_⟩
    rw [statusAt_setStatus_other status fun same => ?_]
    · exact at_
    · rw [same, kind] at isClosing
      cases isClosing
  bodyRuns := ordered.bodyRuns
  finalizerRuns := ordered.finalizerRuns

/-- The closing task starts once its predecessor settled. -/
theorem Ordered.startBody (ordered : Ordered lane) (found : lane.closing = some closing)
    (waiting : statusAt lane closing.task = some .waiting)
    (ready
      : ∀ predecessor other,
          kindAt lane closing.task = some (.lane (some predecessor) other)
          → statusAt lane predecessor = some .settled)
    : Ordered (startBody lane closing) := by
  have phase : closing.phase = .waiting := by
    have status := (ordered.closingTask closing found).2.2
    rw [waiting, Option.some.injEq] at status
    cases at_ : closing.phase <;> simp [at_, Phase.status] at status ⊢
  have bodies := ordered.bodyRuns_of_closing found
  have finalizers := ordered.finalizerRuns_of_closing found
  rw [phase] at bodies finalizers
  have chain := ordered.chain.setStatus .running ready (by simp [waiting])
  have running := statusAt_setStatus_self .running waiting
  unfold RuntimeLifecycle.startBody
  dsimp only
  split
  · exact ordered.moved found (chain.same (.of_tasks rfl rfl)) (kindAt_setStatus _ · _) rfl rfl
      running (congrArg (· + 1) bodies) finalizers
  · exact ordered.moved found (chain.same (.of_tasks rfl rfl)) (kindAt_setStatus _ · _) rfl rfl
      running (congrArg (· + 1) bodies) (congrArg (· + 1) finalizers)

theorem Ordered.start (ordered : Ordered lane) {record : LaneTask Resource}
    (found : lane.tasks[task]? = some record)
    : Ordered (start lane task record) := by
  have kindFound : kindAt lane task = some record.kind := by rw [kindAt, found]; rfl
  have statusFound : statusAt lane task = some record.status := by rw [statusAt, found]; rfl
  unfold RuntimeLifecycle.start
  split
  · exact ordered
  · next notYet =>
    have waiting : statusAt lane task = some .waiting := by
      rw [statusFound, Decidable.not_not.mp notYet]
    split
    · next predecessor closes kind =>
      rw [kind] at kindFound
      split
      · next settled =>
        have ready (earlier : ℕ) (other : Bool)
            (isLane : kindAt lane task = some (.lane (some earlier) other))
            : statusAt lane earlier = some .settled := by
          have same := Option.some.inj (kindFound.symm.trans isLane)
          injection same with same
          rw [same, Option.all_some] at settled
          exact hasSettled_iff.mp settled
        split
        · next closing =>
          subst closing
          split
          · next closing closes =>
            have isTask := ordered.closingKind task predecessor kindFound
            rw [closeTask, closes, Option.map_some, Option.some.injEq] at isTask
            subst isTask
            exact ordered.startBody closes waiting ready
          · exact ordered
        · next open_ =>
          rw [Bool.not_eq_true] at open_
          rw [open_] at kindFound
          exact ordered.setStatus kindFound
            (ordered.chain.setStatus .running ready (by simp [waiting]))
      · exact ordered
    · next kind =>
      rw [kind] at kindFound
      refine ordered.same (sameLane_setStatus lane .running (not_isLane kindFound ?_))
      intro _ _ same
      cases same
    · exact ordered
    · next resource kind =>
      rw [kind] at kindFound
      have disposed : SameLane lane { lane with disposals := lane.disposals ++ [resource] } :=
        .of_tasks rfl rfl rfl rfl rfl
      refine ordered.same (disposed.trans (sameLane_setStatus _ .running ?_))
      refine not_isLane kindFound ?_
      intro _ _ same
      cases same

theorem Ordered.settle (ordered : Ordered lane) {record : LaneTask Resource}
    (found : lane.tasks[task]? = some record)
    : Ordered (settle lane task record) := by
  have kindFound : kindAt lane task = some record.kind := by rw [kindAt, found]; rfl
  have statusFound : statusAt lane task = some record.status := by rw [statusAt, found]; rfl
  unfold RuntimeLifecycle.settle
  split
  · exact ordered
  · next running open_ =>
    rw [running] at statusFound
    cases kind : record.kind with
    | lane predecessor closes =>
        rw [kind] at kindFound
        have isOpen : closes = false := by
          cases closes with
          | false => rfl
          | true => exact absurd kind (open_ predecessor)
        rw [isOpen] at kindFound
        refine ordered.setStatus kindFound (ordered.chain.setStatus .settled ?_ fun _ => rfl)
        intro earlier other isLane
        refine ordered.chain.started task earlier other isLane ?_
        simp [statusFound]
    | admitted | external | release _ =>
        rw [kind] at kindFound
        refine ordered.same (sameLane_setStatus lane .settled (not_isLane kindFound ?_))
        intro _ _ same
        cases same
  · exact ordered

/-- A turn of a drain loop that keeps the phase's status and counters. -/
theorem Ordered.drain (ordered : Ordered lane) (found : lane.closing = some closing)
    (awaited : Option (List ℕ)) {waits : Option (List ℕ) → Phase}
    {leave : Lane Resource → Lane Resource} (leaves : Ordered (leave lane))
    (status : ∀ next, (waits next).status = closing.phase.status)
    (bodyRuns : ∀ next, (waits next).bodyRuns = closing.phase.bodyRuns)
    (finalizerRuns : ∀ next, (waits next).finalizerRuns = closing.phase.finalizerRuns)
    : Ordered (drain lane closing awaited waits leave) := by
  unfold RuntimeLifecycle.drain
  split
  · split
    · exact leaves
    · exact ordered.setPhase found _ (status _) (bodyRuns _) (finalizerRuns _)
  · split
    · exact ordered.setPhase found _ (status _) (bodyRuns _) (finalizerRuns _)
    · exact ordered

theorem Ordered.advance [DecidableEq Resource] (ordered : Ordered lane)
    (found : lane.closing = some closing)
    : Ordered (advance lane closing) := by
  have finalizers := ordered.finalizerRuns_of_closing found
  have bodies := ordered.bodyRuns_of_closing found
  have status := (ordered.closingTask closing found).2.2
  unfold RuntimeLifecycle.advance
  split
  · exact ordered
  · exact ordered
  · next awaited phase =>
    refine ordered.drain found awaited ?_ ?_ ?_ ?_
    · exact ordered.setPhase found _ (by rw [phase]; rfl) (by rw [phase]; rfl) (by rw [phase]; rfl)
    all_goals
      intro next
      rw [phase]
      rfl
  · next phase =>
    have disowned : SameLane lane { lane with owned := none } := .of_tasks rfl rfl rfl rfl rfl
    have same := disowned.trans (sameLane_releaseAll (lane.owned.getD []) _)
    exact (ordered.same same).setPhase (same.closing.trans found) _ (by rw [phase]; rfl) (by rw [phase]; rfl)
      (by rw [phase]; rfl)
  · next releases phase =>
    split
    · exact ordered.setPhase found _ (by rw [phase]; rfl) (by rw [phase]; rfl) (by rw [phase]; rfl)
    · exact ordered
  · next awaited phase =>
    refine ordered.drain found awaited ?_ ?_ ?_ ?_
    · exact ordered.setPhase found _ (by rw [phase]; rfl) (by rw [phase]; rfl) (by rw [phase]; rfl)
    all_goals
      intro next
      rw [phase]
      rfl
  · next phase =>
    rw [phase] at finalizers bodies status
    exact ordered.moved found (ordered.chain.same (.of_tasks rfl rfl)) (fun _ => rfl) rfl rfl
      status bodies (congrArg (· + 1) finalizers)
  · next phase =>
    exact ordered.setPhase found _ (by rw [phase]; rfl) (by rw [phase]; rfl) (by rw [phase]; rfl)
  · next awaited phase =>
    refine ordered.drain found awaited ?_ ?_ ?_ ?_
    · rw [phase] at finalizers bodies status
      have ready (earlier : ℕ) (other : Bool)
          (isLane : kindAt lane closing.task = some (.lane (some earlier) other))
          : statusAt lane earlier = some .settled :=
        ordered.chain.started closing.task earlier other isLane (by simp [status, Phase.status])
      have chain := ordered.chain.setStatus .settled ready fun _ => rfl
      exact ordered.moved found (chain.same (.of_tasks rfl rfl)) (kindAt_setStatus _ · _) rfl
        rfl (statusAt_setStatus_self .settled status) bodies finalizers
    all_goals
      intro next
      rw [phase]
      rfl

/-- Every event keeps the lane ordered. -/
theorem Ordered.step [DecidableEq Resource] (ordered : Ordered lane) (event : Event Resource)
    : Ordered (step lane event) := by
  cases event with
  | run => exact ordered.run
  | close => exact ordered.closeWith false
  | dispose => exact ordered.closeWith true
  | admitOperation => exact ordered.admitOperation
  | serialize => exact ordered.serialize
  | trackNew =>
      refine ordered.same ((sameLane_spawn lane .external .running ?_).trans (sameLane_track _ _))
      intro _ _ same
      cases same
  | trackTask task =>
      unfold RuntimeLifecycle.step
      dsimp only
      split
      · exact ordered.same (sameLane_track _ _)
      · exact ordered
  | own resource => exact ordered.same (sameLane_own lane resource)
  | release resource => exact ordered.same (sameLane_release lane resource)
  | start task =>
      unfold RuntimeLifecycle.step
      dsimp only
      split
      · next found => exact ordered.start found
      · exact ordered
  | settle task =>
      unfold RuntimeLifecycle.step
      dsimp only
      split
      · next found => exact ordered.settle found
      · exact ordered
  | untrack task =>
      unfold RuntimeLifecycle.step RuntimeLifecycle.untrack
      dsimp only
      split
      · exact ordered.same (.of_tasks rfl rfl rfl rfl rfl)
      · exact ordered
  | advance =>
      unfold RuntimeLifecycle.step
      dsimp only
      split
      · next found => exact ordered.advance found
      · exact ordered

end SpeculativeAction.RuntimeLifecycle
