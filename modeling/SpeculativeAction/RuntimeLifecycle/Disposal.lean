import SpeculativeAction.Library.TransitionSystem
import SpeculativeAction.RuntimeLifecycle.Ordering

/-! Every resource is disposed of by one tracked task, and the drain before the finalizer waits
for the tasks of all resources owned until it ends.
-/

namespace SpeculativeAction.RuntimeLifecycle

open SpeculativeAction.Library

variable {Resource : Type} {lane next : Lane Resource} {task : ℕ} {resource : Resource}

-- Changes beside the releases

/-- Changes that keep the release tasks, their tracking and what was disposed of. -/
structure SameReleases (lane next : Lane Resource) : Prop where
  kinds
    : ∀ task resource,
        kindAt next task = some (.release resource) ↔ kindAt lane task = some (.release resource)
  statuses
    : ∀ task resource,
        kindAt lane task = some (.release resource) → statusAt next task = statusAt lane task
  work : ∀ task ∈ lane.work, task ∈ next.work
  released : next.released = lane.released
  disposals : next.disposals = lane.disposals

theorem SameReleases.of_tasks (tasks : next.tasks = lane.tasks) (work : next.work = lane.work)
    (released : next.released = lane.released) (disposals : next.disposals = lane.disposals)
    : SameReleases lane next where
  kinds task resource := by rw [kindAt, kindAt, tasks]
  statuses task resource _ := by rw [statusAt, statusAt, tasks]
  work task member := work ▸ member
  released := released
  disposals := disposals

theorem SameReleases.trans {middle : Lane Resource} (first : SameReleases lane middle)
    (second : SameReleases middle next)
    : SameReleases lane next where
  kinds task resource := (second.kinds task resource).trans (first.kinds task resource)
  statuses task resource kind := by
    rw [second.statuses task resource ((first.kinds task resource).mpr kind),
      first.statuses task resource kind]
  work task member := second.work task (first.work task member)
  released := second.released.trans first.released
  disposals := second.disposals.trans first.disposals

theorem sameReleases_track (lane : Lane Resource) (task : ℕ)
    : SameReleases lane (track lane task) where
  kinds other resource := by rw [kindAt, kindAt, track_tasks]
  statuses other resource _ := by rw [statusAt, statusAt, track_tasks]
  work other member := mem_track_work.mpr (.inl member)
  released := track_released task
  disposals := track_disposals task

theorem sameReleases_spawn (lane : Lane Resource) (kind : TaskKind Resource) (status : Status)
    (outside : ∀ resource, kind ≠ .release resource)
    : SameReleases lane (spawn lane kind status).1 where
  kinds task resource := by
    rw [kindAt_spawn]
    split
    · next fresh =>
        rw [fresh, kindAt_length]
        simp [outside]
    · rfl
  statuses task resource kind := by
    rw [statusAt_spawn, if_neg (Nat.ne_of_lt (lt_length_of_kindAt kind))]
  work task member := member
  released := rfl
  disposals := rfl

theorem sameReleases_enqueue (lane : Lane Resource) (closing : Bool)
    : SameReleases lane (enqueue lane closing).1 :=
  (sameReleases_spawn lane (.lane lane.tail closing) .waiting fun _ same => by cases same).trans
    (.of_tasks rfl rfl rfl rfl)

theorem sameReleases_setStatus (lane : Lane Resource) (status : Status)
    (outside : ∀ resource, kindAt lane task ≠ some (.release resource))
    : SameReleases lane (setStatus lane task status) where
  kinds other resource := by rw [kindAt_setStatus]
  statuses other resource kind := by
    refine statusAt_setStatus_other status fun same => ?_
    exact outside resource (same ▸ kind)
  work other member := member
  released := rfl
  disposals := rfl

variable [DecidableEq Resource]

-- Progress

/-- A resource that is owned or has been released. -/
def Known (lane : Lane Resource) (resource : Resource) : Prop :=
  (∃ owned, lane.owned = some owned ∧ resource ∈ owned)
  ∨ (lane.released.get? resource).isSome

/-- A resource whose disposal has ended, well or not. -/
def Finished (lane : Lane Resource) (resource : Resource) : Prop :=
  ∃ task, lane.released.get? resource = some task ∧ statusAt lane task = some .settled

/-- What no event takes back. -/
structure Progress (lane next : Lane Resource) : Prop where
  settled : ∀ task, statusAt lane task = some .settled → statusAt next task = some .settled
  released
    : ∀ (resource : Resource) (task : ℕ),
        lane.released.get? resource = some task → next.released.get? resource = some task
  known : ∀ resource, Known lane resource → Known next resource

theorem Progress.refl (lane : Lane Resource) : Progress lane lane :=
  ⟨fun _ => id, fun _ _ => id, fun _ => id⟩

theorem Progress.trans {middle : Lane Resource} (first : Progress lane middle)
    (second : Progress middle next)
    : Progress lane next where
  settled task settled := second.settled task (first.settled task settled)
  released resource task found := second.released resource task (first.released resource task found)
  known resource known := second.known resource (first.known resource known)

theorem Progress.finished (progress : Progress lane next) (finished : Finished lane resource)
    : Finished next resource := by
  obtain ⟨task, found, settled⟩ := finished
  exact ⟨task, progress.released resource task found, progress.settled task settled⟩

/-- Changes that keep the tasks, what is owned and what is released. -/
theorem Progress.of_same (tasks : next.tasks = lane.tasks) (owned : next.owned = lane.owned)
    (released : next.released = lane.released)
    : Progress lane next where
  settled task settled := by rw [statusAt, tasks]; exact settled
  released resource task found := by rw [released]; exact found
  known resource known := by
    unfold Known at known ⊢
    rw [owned, released]
    exact known

theorem progress_track (lane : Lane Resource) (task : ℕ) : Progress lane (track lane task) :=
  .of_same (track_tasks task) (track_owned task) (track_released task)

theorem progress_spawn (lane : Lane Resource) (kind : TaskKind Resource) (status : Status)
    : Progress lane (spawn lane kind status).1 where
  settled task settled := by
    rw [statusAt_spawn]
    split
    · next fresh =>
        rw [fresh, statusAt_length] at settled
        cases settled
    · exact settled
  released _ _ found := found
  known _ known := known

theorem progress_enqueue (lane : Lane Resource) (closing : Bool)
    : Progress lane (enqueue lane closing).1 :=
  (progress_spawn lane _ _).trans (.of_same rfl rfl rfl)

/-- A task that has not settled may move on. -/
theorem progress_setStatus (lane : Lane Resource) (status : Status)
    (forward : statusAt lane task = some .settled → status = .settled)
    : Progress lane (setStatus lane task status) where
  settled other settled := by
    by_cases same : other = task
    · rw [same] at settled ⊢
      rw [statusAt_setStatus_self status settled, forward settled]
    · rw [statusAt_setStatus_other status same]
      exact settled
  released _ _ found := found
  known _ known := known

/-- Releasing a resource records its task; it stays known although it is no longer owned. -/
theorem progress_spawnRelease (lane : Lane Resource)
    (unreleased : lane.released.get? resource = none)
    : Progress lane (spawnRelease lane resource).1 := by
  have spawned := progress_spawn lane (.release resource) .waiting
  refine (spawned.trans (progress_track _ lane.tasks.length)).trans ⟨fun _ => id, ?_, ?_⟩
  · intro other task found
    rw [track_released] at found
    simp only [spawnRelease, OrderedMap.get?_set]
    split
    · next same =>
        rw [same] at found
        exact absurd (unreleased.symm.trans found) (by simp)
    · rw [track_released]
      exact found
  · intro other known
    rcases known with owned | found
    · exact .inl owned
    · refine .inr ?_
      simp only [spawnRelease, OrderedMap.get?_set]
      split
      · rfl
      · exact found

theorem released_spawnRelease (lane : Lane Resource) (resource : Resource)
    : (spawnRelease lane resource).1.released.get? resource = some lane.tasks.length := by
  simp [spawnRelease, spawn, OrderedMap.get?_set]

theorem isSome_released_release (lane : Lane Resource) (resource : Resource)
    : ((release lane resource).1.released.get? resource).isSome := by
  unfold release
  split
  · next found => exact Option.isSome_of_eq_some found
  · rw [released_spawnRelease]
    rfl

theorem progress_release (lane : Lane Resource) (resource : Resource)
    : Progress lane (release lane resource).1 := by
  have released := isSome_released_release lane resource
  have parts (next : Lane Resource) (disowned : Progress (disown lane resource) next)
      (isSome : (next.released.get? resource).isSome)
      : Progress lane next := by
    refine ⟨disowned.settled, disowned.released, fun other known => ?_⟩
    by_cases same : other = resource
    · exact .inr (same ▸ isSome)
    · refine disowned.known other ?_
      rcases known with ⟨owned, found, member⟩ | found
      · refine .inl ⟨owned.erase resource, ?_, (List.mem_erase_of_ne same).mpr member⟩
        rw [disown, found]
        rfl
      · exact .inr found
  refine parts _ ?_ released
  unfold release
  split
  · exact .refl _
  · next unreleased => exact progress_spawnRelease _ unreleased

theorem progress_own (lane : Lane Resource) (resource : Resource)
    : Progress lane (own lane resource) := by
  unfold own
  split
  · exact .refl lane
  · split
    · next owned found =>
      split
      · exact .refl lane
      · refine ⟨fun _ => id, fun _ _ => id, fun other known => ?_⟩
        rcases known with ⟨old, same, member⟩ | released
        · obtain rfl := Option.some.inj (found.symm.trans same)
          exact .inl ⟨_, rfl, List.mem_append_left _ member⟩
        · exact .inr released
    · exact progress_release lane resource

/-- Owning a resource makes it known. -/
theorem known_own (lane : Lane Resource) (resource : Resource)
    : Known (own lane resource) resource := by
  unfold own
  split
  · next released =>
    rw [OrderedMap.has_iff, OrderedMap.mem_keys_iff] at released
    obtain ⟨task, found⟩ := released
    exact .inr (Option.isSome_of_eq_some found)
  · split
    · next owned found =>
      split
      · next member => exact .inl ⟨owned, found, member⟩
      · exact .inl ⟨_, rfl, by simp⟩
    · exact .inr (isSome_released_release lane resource)

/-- Taking the owned resources: all of them are released. -/
theorem progress_releaseAll (resources : List Resource) (lane : Lane Resource)
    : Progress lane (releaseAll resources lane).1
      ∧ ∀ resource ∈ resources, Known (releaseAll resources lane).1 resource := by
  induction resources generalizing lane with
  | nil => exact ⟨.refl lane, by simp⟩
  | cons resource rest ih =>
      obtain ⟨later, known⟩ := ih (release lane resource).1
      refine ⟨(progress_release lane resource).trans later, fun other member => ?_⟩
      rcases List.mem_cons.mp member with rfl | old
      · exact later.known _ (.inr (isSome_released_release lane _))
      · exact known other old

-- One task for each released resource

/-- A released resource has one task, which disposes of it when it starts and is tracked
until it settles; nothing is owned any more while the releases are drained.
-/
structure Disposals (lane : Lane Resource) : Prop where
  keyed
    : ∀ (task : ℕ) (resource : Resource),
        kindAt lane task = some (.release resource) → lane.released.get? resource = some task
  stored
    : ∀ (resource : Resource) (task : ℕ),
        lane.released.get? resource = some task → kindAt lane task = some (.release resource)
  unreleased
    : ∀ resource : Resource,
        lane.released.get? resource = none → lane.disposals.count resource = 0
  disposed
    : ∀ (resource : Resource) (task : ℕ),
        lane.released.get? resource = some task
        → lane.disposals.count resource
          = if statusAt lane task = some .waiting then 0 else 1
  pending
    : ∀ (resource : Resource) (task : ℕ),
        lane.released.get? resource = some task
        → statusAt lane task = some .settled ∨ task ∈ lane.work
  taken
    : ∀ closing : Closing,
        lane.closing = some closing
        → (∃ awaited, closing.phase = .awaitReleases awaited)
          ∨ (∃ awaited, closing.phase = .drainReleases awaited)
        → lane.owned = none

theorem initial_disposals : Disposals (initial : Lane Resource) where
  keyed task resource found := by cases found
  stored resource task found := by cases found
  unreleased resource _ := rfl
  disposed resource task found := by cases found
  pending resource task found := by cases found
  taken closing found := by cases found

/-- Every resource is disposed of at most once. -/
theorem Disposals.count_le_one (disposals : Disposals lane) (resource : Resource)
    : lane.disposals.count resource ≤ 1 := by
  cases found : lane.released.get? resource with
  | none => simp [disposals.unreleased resource found]
  | some task =>
      rw [disposals.disposed resource task found]
      split <;> omega

/-- The invariant over the same releases; `taken` is the part that depends on the phase. -/
theorem Disposals.same (disposals : Disposals lane) (same : SameReleases lane next)
    (taken
      : ∀ closing : Closing,
          next.closing = some closing
          → (∃ awaited, closing.phase = .awaitReleases awaited)
            ∨ (∃ awaited, closing.phase = .drainReleases awaited)
          → next.owned = none)
    : Disposals next where
  keyed task resource kind := by
    rw [same.released]
    exact disposals.keyed task resource ((same.kinds ..).mp kind)
  stored resource task found := by
    rw [same.released] at found
    exact (same.kinds ..).mpr (disposals.stored resource task found)
  unreleased resource absent := by
    rw [same.released] at absent
    rw [same.disposals]
    exact disposals.unreleased resource absent
  disposed resource task found := by
    rw [same.released] at found
    rw [same.disposals, same.statuses task resource (disposals.stored resource task found)]
    exact disposals.disposed resource task found
  pending resource task found := by
    rw [same.released] at found
    rw [same.statuses task resource (disposals.stored resource task found)]
    exact (disposals.pending resource task found).imp_right (same.work task)
  taken := taken

/-- Changes that keep the closing task and what is owned as well. -/
theorem Disposals.same_of_closing (disposals : Disposals lane) (same : SameReleases lane next)
    (closing : next.closing = lane.closing) (owned : next.owned = lane.owned)
    : Disposals next := by
  refine disposals.same same fun other found phase => ?_
  rw [owned]
  exact disposals.taken other (closing ▸ found) phase

-- Releasing

theorem Disposals.disown (disposals : Disposals lane) (resource : Resource)
    : Disposals (disown lane resource) := by
  refine disposals.same (.of_tasks rfl rfl rfl rfl) fun closing found phase => ?_
  have absent := disposals.taken closing found phase
  rw [RuntimeLifecycle.disown, absent]
  rfl

/-- The task of a resource that had none. -/
theorem Disposals.spawnRelease (disposals : Disposals lane)
    (unreleased : lane.released.get? resource = none)
    : Disposals (spawnRelease lane resource).1 := by
  have kinds (task : ℕ)
      : kindAt (RuntimeLifecycle.spawnRelease lane resource).1 task
        = if task = lane.tasks.length then some (.release resource) else kindAt lane task := by
    have spawned := kindAt_spawn lane (.release resource) .waiting task
    rw [← spawned, kindAt, kindAt]
    exact congrArg (fun tasks : List (LaneTask Resource) => (tasks[task]?).map LaneTask.kind)
      (track_tasks _)
  have statuses (task : ℕ)
      : statusAt (RuntimeLifecycle.spawnRelease lane resource).1 task
        = if task = lane.tasks.length then some .waiting else statusAt lane task := by
    have spawned := statusAt_spawn lane (.release resource) .waiting task
    rw [← spawned, statusAt, statusAt]
    exact congrArg (fun tasks : List (LaneTask Resource) => (tasks[task]?).map LaneTask.status)
      (track_tasks _)
  have released (other : Resource)
      : (RuntimeLifecycle.spawnRelease lane resource).1.released.get? other
        = if other = resource then some lane.tasks.length else lane.released.get? other := by
    simp [RuntimeLifecycle.spawnRelease, spawn, OrderedMap.get?_set]
  have disposed : (RuntimeLifecycle.spawnRelease lane resource).1.disposals = lane.disposals :=
    track_disposals _
  have old {other : Resource} {task : ℕ} (found : lane.released.get? other = some task)
      : task ≠ lane.tasks.length :=
    Nat.ne_of_lt (lt_length_of_kindAt (disposals.stored other task found))
  refine ⟨?_, ?_, ?_, ?_, ?_, ?_⟩
  · intro task other kind
    rw [kinds] at kind
    rw [released]
    split at kind
    · next fresh =>
        injection kind with kind
        injection kind with same
        rw [if_pos same.symm, fresh]
    · have found := disposals.keyed task other kind
      have different : other ≠ resource := by
        intro same
        rw [same, unreleased] at found
        cases found
      rw [if_neg different]
      exact found
  · intro other task found
    rw [released] at found
    rw [kinds]
    split at found
    · next same =>
        rw [if_pos (Option.some.inj found).symm, same]
    · rw [if_neg (old found)]
      exact disposals.stored other task found
  · intro other absent
    rw [released] at absent
    rw [disposed]
    split at absent
    · cases absent
    · exact disposals.unreleased other absent
  · intro other task found
    rw [released] at found
    rw [disposed, statuses]
    split at found
    · next same =>
        rw [if_pos (Option.some.inj found).symm, if_pos rfl, same]
        exact disposals.unreleased resource unreleased
    · rw [if_neg (old found)]
      exact disposals.disposed other task found
  · intro other task found
    rw [released] at found
    rw [statuses]
    split at found
    · exact .inr (mem_track_work.mpr (.inr (Option.some.inj found).symm))
    · rw [if_neg (old found)]
      refine (disposals.pending other task found).imp_right fun member => ?_
      exact mem_track_work.mpr (.inl member)
  · intro closing found phase
    have same : (RuntimeLifecycle.spawnRelease lane resource).1.closing = lane.closing :=
      track_closing lane.tasks.length
    have absent := disposals.taken closing (same ▸ found) phase
    exact (track_owned lane.tasks.length).trans absent

theorem Disposals.release (disposals : Disposals lane) (resource : Resource)
    : Disposals (release lane resource).1 := by
  unfold RuntimeLifecycle.release
  split
  · exact disposals.disown resource
  · next unreleased => exact (disposals.disown resource).spawnRelease unreleased

theorem Disposals.own (disposals : Disposals lane) (resource : Resource)
    : Disposals (own lane resource) := by
  unfold RuntimeLifecycle.own
  split
  · exact disposals
  · split
    · next owned found =>
      split
      · exact disposals
      · refine disposals.same (.of_tasks rfl rfl rfl rfl) fun closing closes phase => ?_
        have absent := disposals.taken closing closes phase
        rw [found] at absent
        cases absent
    · exact disposals.release resource

theorem Disposals.releaseAll (resources : List Resource) (disposals : Disposals lane)
    : Disposals (releaseAll resources lane).1 := by
  induction resources generalizing lane with
  | nil => exact disposals
  | cons resource rest ih => exact ih (disposals.release resource)

/-- Releasing keeps `owned` undefined. -/
theorem owned_releaseAll (resources : List Resource) (taken : lane.owned = none)
    : (releaseAll resources lane).1.owned = none := by
  induction resources generalizing lane with
  | nil => exact taken
  | cons resource rest ih =>
      refine ih ?_
      have disowned : (disown lane resource).owned = none := by
        rw [disown, taken]
        rfl
      unfold release
      split
      · exact disowned
      · exact (track_owned lane.tasks.length).trans disowned

-- Events

variable {closing : Closing}

/-- Phases in which the owned resources have been taken and are awaited. -/
def Phase.awaitsReleases : Phase → Bool
  | .awaitReleases _ | .drainReleases _ => true
  | _ => false

section

variable (disposals : Disposals lane)

include disposals

/-- A phase change keeps the invariant when nothing is owned where releases are awaited. -/
theorem Disposals.setPhase {phase : Phase} (taken : phase.awaitsReleases = true → lane.owned = none)
    : Disposals (setPhase lane closing phase) := by
  refine disposals.same (.of_tasks rfl rfl rfl rfl) fun other found awaits => ?_
  obtain rfl := Option.some.inj found
  refine taken ?_
  rcases awaits with ⟨awaited, same⟩ | ⟨awaited, same⟩
  · rw [show phase = .awaitReleases awaited from same]
    rfl
  · rw [show phase = .drainReleases awaited from same]
    rfl

/-- A task that releases nothing moves on. -/
theorem Disposals.setStatus (status : Status)
    (outside : ∀ resource, kindAt lane task ≠ some (.release resource))
    : Disposals (setStatus lane task status) :=
  disposals.same_of_closing (sameReleases_setStatus lane status outside) rfl rfl

/-- The release task starts: this is the one call of the resource's `dispose`. -/
theorem Disposals.startRelease (kind : kindAt lane task = some (.release resource))
    (waiting : statusAt lane task = some .waiting)
    : Disposals
        (RuntimeLifecycle.setStatus { lane with disposals := lane.disposals ++ [resource] } task
          .running) := by
  have key := disposals.keyed task resource kind
  have running
      : statusAt
          (RuntimeLifecycle.setStatus { lane with disposals := lane.disposals ++ [resource] } task
            .running)
          task
        = some .running :=
    statusAt_setStatus_self .running waiting
  have others {other : ℕ} (different : other ≠ task)
      : statusAt
          (RuntimeLifecycle.setStatus { lane with disposals := lane.disposals ++ [resource] } task
            .running)
          other
        = statusAt lane other :=
    statusAt_setStatus_other .running different
  refine ⟨?_, ?_, ?_, ?_, ?_, disposals.taken⟩
  · intro other owner found
    rw [kindAt_setStatus] at found
    exact disposals.keyed other owner found
  · intro owner other found
    rw [kindAt_setStatus]
    exact disposals.stored owner other found
  · intro owner absent
    have different : owner ≠ resource := by
      rintro rfl
      exact absurd (absent.symm.trans key) (by simp)
    have before := disposals.unreleased owner absent
    simpa [RuntimeLifecycle.setStatus, List.count_append, Ne.symm different] using before
  · intro owner other found
    have before := disposals.disposed owner other found
    by_cases same : owner = resource
    · subst same
      obtain rfl := Option.some.inj (key.symm.trans found)
      rw [waiting, if_pos rfl] at before
      rw [running]
      simp [RuntimeLifecycle.setStatus, List.count_append, before]
    · have different : other ≠ task := by
        rintro rfl
        have kinds := (disposals.stored owner other found).symm.trans kind
        injection kinds with kinds
        injection kinds with equal
        exact same equal
      rw [others different, ← before]
      simp [RuntimeLifecycle.setStatus, List.count_append, Ne.symm same]
  · intro owner other found
    by_cases same : other = task
    · subst same
      have pending := disposals.pending owner other found
      rw [waiting] at pending
      rcases pending with settled | member
      · cases settled
      · exact .inr member
    · rw [others same]
      exact disposals.pending owner other found

/-- A running release task settles. -/
theorem Disposals.settleRelease (started : statusAt lane task = some .running)
    : Disposals (RuntimeLifecycle.setStatus lane task .settled) where
  keyed other resource kind := by
    rw [kindAt_setStatus] at kind
    exact disposals.keyed other resource kind
  stored resource other found := by
    rw [kindAt_setStatus]
    exact disposals.stored resource other found
  unreleased := disposals.unreleased
  disposed resource other found := by
    have before := disposals.disposed resource other found
    by_cases same : other = task
    · rw [same, started] at before
      rw [same, statusAt_setStatus_self .settled started]
      exact before
    · rw [statusAt_setStatus_other .settled same]
      exact before
  pending resource other found := by
    by_cases same : other = task
    · rw [same]
      exact .inl (statusAt_setStatus_self .settled started)
    · rw [statusAt_setStatus_other .settled same]
      exact disposals.pending resource other found
  taken := disposals.taken

theorem Disposals.untrack (task : ℕ)
    : Disposals (untrack lane task) := by
  unfold RuntimeLifecycle.untrack
  split
  · next settled =>
    refine ⟨disposals.keyed, disposals.stored, disposals.unreleased, disposals.disposed, ?_,
      disposals.taken⟩
    intro resource other found
    by_cases same : other = task
    · have before := hasSettled_iff.mp settled
      rw [← same] at before
      exact .inl before
    · exact (disposals.pending resource other found).imp_right
        fun member => (List.mem_erase_of_ne same).mpr member
  · exact disposals

theorem Disposals.start (ordered : Ordered lane) {record : LaneTask Resource}
    (found : lane.tasks[task]? = some record)
    : Disposals (start lane task record) := by
  have kindFound : kindAt lane task = some record.kind := by rw [kindAt, found]; rfl
  have statusFound : statusAt lane task = some record.status := by rw [statusAt, found]; rfl
  unfold RuntimeLifecycle.start
  split
  · exact disposals
  · next notYet =>
    have waiting : statusAt lane task = some .waiting := by
      rw [statusFound, Decidable.not_not.mp notYet]
    split
    · next predecessor closes kind =>
      rw [kind] at kindFound
      split
      · split
        · split
          · next closing closes =>
            obtain ⟨-, ⟨before, isLane⟩, -⟩ := ordered.closingTask closing closes
            unfold startBody
            dsimp only
            have outside (resource : Resource)
                : kindAt lane closing.task ≠ some (.release resource) := by
              rw [isLane]
              intro same
              cases same
            have started := disposals.setStatus .running outside
            split
            · refine Disposals.setPhase ?_ fun awaits => by cases awaits
              exact started.same_of_closing (.of_tasks rfl rfl rfl rfl) rfl rfl
            · refine Disposals.setPhase ?_ fun awaits => by cases awaits
              exact started.same_of_closing (.of_tasks rfl rfl rfl rfl) rfl rfl
          · exact disposals
        · exact disposals.setStatus .running fun resource same => by
            rw [kindFound] at same
            cases same
      · exact disposals
    · next kind =>
      exact disposals.setStatus .running fun resource same => by
        rw [kindFound, kind] at same
        cases same
    · exact disposals
    · next resource kind =>
      rw [kind] at kindFound
      exact disposals.startRelease kindFound waiting

theorem Disposals.settle {record : LaneTask Resource} (found : lane.tasks[task]? = some record)
    : Disposals (settle lane task record) := by
  unfold RuntimeLifecycle.settle
  split
  · exact disposals
  · next running _ =>
    refine disposals.settleRelease ?_
    rw [statusAt, found, Option.map_some, running]
  · exact disposals

theorem Disposals.drain (awaited : Option (List ℕ)) {waits : Option (List ℕ) → Phase}
    {leave : Lane Resource → Lane Resource} (leaves : Disposals (leave lane))
    (taken : ∀ next, (waits next).awaitsReleases = true → lane.owned = none)
    : Disposals (drain lane closing awaited waits leave) := by
  unfold RuntimeLifecycle.drain
  split
  · split
    · exact leaves
    · exact disposals.setPhase (taken _)
  · split
    · exact disposals.setPhase (taken _)
    · exact disposals

theorem Disposals.advance (ordered : Ordered lane) (found : lane.closing = some closing)
    : Disposals (advance lane closing) := by
  unfold RuntimeLifecycle.advance
  split
  · exact disposals
  · exact disposals
  · next awaited phase =>
    refine disposals.drain awaited ?_ fun _ awaits => by cases awaits
    exact disposals.setPhase fun awaits => by cases awaits
  · next phase =>
    have taken : Disposals { lane with owned := none } :=
      disposals.same (.of_tasks rfl rfl rfl rfl) fun _ _ _ => rfl
    exact (taken.releaseAll _).setPhase fun _ => owned_releaseAll _ rfl
  · next releases phase =>
    have nothing := disposals.taken closing found (.inl ⟨releases, phase⟩)
    split
    · exact disposals.setPhase fun _ => nothing
    · exact disposals
  · next awaited phase =>
    have nothing := disposals.taken closing found (.inr ⟨awaited, phase⟩)
    refine disposals.drain awaited ?_ fun _ _ => nothing
    exact disposals.setPhase fun awaits => by cases awaits
  · next phase =>
    refine Disposals.setPhase ?_ fun awaits => by cases awaits
    exact disposals.same_of_closing (.of_tasks rfl rfl rfl rfl) rfl rfl
  · next phase => exact disposals.setPhase fun awaits => by cases awaits
  · next awaited phase =>
    refine disposals.drain awaited ?_ fun _ awaits => by cases awaits
    obtain ⟨-, ⟨before, isLane⟩, -⟩ := ordered.closingTask closing found
    have outside (resource : Resource)
        : kindAt lane closing.task ≠ some (.release resource) := by
      rw [isLane]
      intro same
      cases same
    exact (disposals.setStatus .settled outside).setPhase fun awaits => by cases awaits

theorem Disposals.closeWith (disposing : Bool)
    : Disposals (closeWith lane disposing).1 := by
  unfold RuntimeLifecycle.closeWith
  split
  · exact disposals
  · refine disposals.same ((sameReleases_enqueue lane true).trans (.of_tasks rfl rfl rfl rfl)) ?_
    intro closing found awaits
    obtain rfl := Option.some.inj found
    rcases awaits with ⟨_, same⟩ | ⟨_, same⟩
    · cases same
    · cases same

/-- Every event keeps the releases accounted for. -/
theorem Disposals.step (ordered : Ordered lane) (event : Event Resource)
    : Disposals (step lane event) := by
  cases event with
  | run =>
      unfold RuntimeLifecycle.step RuntimeLifecycle.run
      dsimp only
      split
      · exact disposals
      · exact disposals.same_of_closing (sameReleases_enqueue lane false) rfl rfl
  | close => exact disposals.closeWith false
  | dispose => exact disposals.closeWith true
  | admitOperation =>
      unfold RuntimeLifecycle.step RuntimeLifecycle.admitOperation
      dsimp only
      split
      · exact disposals
      · have spawned := sameReleases_spawn lane .admitted .waiting fun _ same => by cases same
        exact disposals.same_of_closing (spawned.trans (sameReleases_track _ _)) (track_closing _)
          (track_owned _)
  | serialize =>
      unfold RuntimeLifecycle.step RuntimeLifecycle.serialize
      dsimp only
      split
      · exact disposals
      · have enqueued := sameReleases_enqueue lane false
        exact disposals.same_of_closing (enqueued.trans (sameReleases_track _ _)) (track_closing _)
          (track_owned _)
  | trackNew =>
      have spawned := sameReleases_spawn lane .external .running fun _ same => by cases same
      exact disposals.same_of_closing (spawned.trans (sameReleases_track _ _)) (track_closing _)
        (track_owned _)
  | trackTask task =>
      unfold RuntimeLifecycle.step
      dsimp only
      split
      · exact disposals.same_of_closing (sameReleases_track _ _) (track_closing _) (track_owned _)
      · exact disposals
  | own resource => exact disposals.own resource
  | release resource => exact disposals.release resource
  | start task =>
      unfold RuntimeLifecycle.step
      dsimp only
      split
      · next found => exact disposals.start ordered found
      · exact disposals
  | settle task =>
      unfold RuntimeLifecycle.step
      dsimp only
      split
      · next found => exact disposals.settle found
      · exact disposals
  | untrack task => exact disposals.untrack task
  | advance =>
      unfold RuntimeLifecycle.step
      dsimp only
      split
      · next found => exact disposals.advance ordered found
      · exact disposals

end

end SpeculativeAction.RuntimeLifecycle
