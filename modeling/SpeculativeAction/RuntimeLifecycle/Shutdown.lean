import SpeculativeAction.RuntimeLifecycle.Disposal

/-! Runs of a lifecycle lane: operations in order, one closing body, one disposal for each
resource, and a finalizer that finds every resource disposed that was owned in time.
-/

namespace SpeculativeAction.RuntimeLifecycle

open SpeculativeAction.Library

variable {Resource : Type} [DecidableEq Resource] {lane next : Lane Resource}
  {closing : Closing}

-- Nothing is taken back

theorem progress_start (ordered : Ordered lane) {task : ℕ} {record : LaneTask Resource}
    (found : lane.tasks[task]? = some record)
    : Progress lane (start lane task record) := by
  have kindFound : kindAt lane task = some record.kind := by rw [kindAt, found]; rfl
  have statusFound : statusAt lane task = some record.status := by rw [statusAt, found]; rfl
  unfold start
  split
  · exact .refl lane
  · next notYet =>
    have waiting : statusAt lane task = some .waiting := by
      rw [statusFound, Decidable.not_not.mp notYet]
    have running : Progress lane (setStatus lane task .running) :=
      progress_setStatus lane .running fun settled => by simp [waiting] at settled
    split
    · next predecessor closes kind =>
      rw [kind] at kindFound
      split
      · split
        · next isClosing =>
          subst isClosing
          split
          · next closing closes =>
            have isTask := ordered.closingKind task predecessor kindFound
            rw [closeTask, closes, Option.map_some, Option.some.injEq] at isTask
            subst isTask
            unfold startBody
            dsimp only
            split
            · exact running.trans (.of_same rfl rfl rfl)
            · exact running.trans (.of_same rfl rfl rfl)
          · exact .refl lane
        · exact running
      · exact .refl lane
    · exact running
    · exact .refl lane
    · exact running.trans (.of_same rfl rfl rfl)

theorem progress_drain (lane : Lane Resource) (closing : Closing) (awaited : Option (List ℕ))
    (waits : Option (List ℕ) → Phase) {leave : Lane Resource → Lane Resource}
    (leaves : Progress lane (leave lane))
    : Progress lane (drain lane closing awaited waits leave) := by
  unfold drain
  split
  · split
    · exact leaves
    · exact .of_same rfl rfl rfl
  · split
    · exact .of_same rfl rfl rfl
    · exact .refl lane

theorem progress_advance (lane : Lane Resource) (closing : Closing)
    : Progress lane (advance lane closing) := by
  unfold advance
  split
  · exact .refl lane
  · exact .refl lane
  · exact progress_drain lane closing _ _ (.of_same rfl rfl rfl)
  · -- What was owned is released, so it stays known when `owned` becomes undefined.
    obtain ⟨later, known⟩ := progress_releaseAll (lane.owned.getD []) { lane with owned := none }
    refine ⟨later.settled, later.released, fun resource before => ?_⟩
    rcases before with ⟨owned, found, member⟩ | released
    · exact known resource (by rw [found]; exact member)
    · exact later.known resource (.inr released)
  · split
    · exact .of_same rfl rfl rfl
    · exact .refl lane
  · exact progress_drain lane closing _ _ (.of_same rfl rfl rfl)
  · exact .of_same rfl rfl rfl
  · exact .of_same rfl rfl rfl
  · refine progress_drain lane closing _ _ ?_
    exact (progress_setStatus lane .settled fun _ => rfl).trans (.of_same rfl rfl rfl)

/-- No event takes back a settlement, a release or what is known. -/
theorem progress_step (ordered : Ordered lane) (event : Event Resource)
    : Progress lane (step lane event) := by
  have closed (disposing : Bool) : Progress lane (closeWith lane disposing).1 := by
    unfold closeWith
    split
    · exact .refl lane
    · exact (progress_enqueue lane true).trans (.of_same rfl rfl rfl)
  cases event with
  | run =>
      unfold step run
      dsimp only
      split
      · exact .refl lane
      · exact progress_enqueue lane false
  | close => exact closed false
  | dispose => exact closed true
  | admitOperation =>
      unfold step admitOperation
      dsimp only
      split
      · exact .refl lane
      · exact (progress_spawn lane _ _).trans (progress_track _ _)
  | serialize =>
      unfold step serialize
      dsimp only
      split
      · exact .refl lane
      · exact (progress_enqueue lane false).trans (progress_track _ _)
  | trackNew => exact (progress_spawn lane _ _).trans (progress_track _ _)
  | trackTask task =>
      unfold step
      dsimp only
      split
      · exact progress_track lane task
      · exact .refl lane
  | own resource => exact progress_own lane resource
  | release resource => exact progress_release lane resource
  | start task =>
      unfold step
      dsimp only
      split
      · next found => exact progress_start ordered found
      · exact .refl lane
  | settle task =>
      unfold step settle
      dsimp only
      split
      · split
        · exact .refl lane
        · exact progress_setStatus lane .settled fun _ => rfl
        · exact .refl lane
      · exact .refl lane
  | untrack task =>
      unfold step untrack
      dsimp only
      split
      · exact .of_same rfl rfl rfl
      · exact .refl lane
  | advance =>
      unfold step
      dsimp only
      split
      · exact progress_advance lane _
      · exact .refl lane

-- The drain before the finalizer

def Phase.afterDrain : Phase → Bool
  | .drained | .finalizing | .drainLast _ | .finished => true
  | _ => false

/-- The lane is being disposed, and the drain that precedes the finalizer has ended. -/
def DrainEnded (lane : Lane Resource) : Prop :=
  ∃ closing,
    lane.closing = some closing ∧ closing.disposing = true ∧ closing.phase.afterDrain = true

instance (lane : Lane Resource) : Decidable (DrainEnded lane) :=
  decidable_of_iff
    (lane.closing.any fun closing => closing.disposing && closing.phase.afterDrain) <| by
    cases found : lane.closing <;> simp [DrainEnded, found]

omit [DecidableEq Resource] in
theorem drainEnded_of_closing (same : next.closing = lane.closing) (ended : DrainEnded next)
    : DrainEnded lane := by
  unfold DrainEnded at ended ⊢
  rw [same] at ended
  exact ended

omit [DecidableEq Resource] in
theorem not_drainEnded_setPhase {phase : Phase} (before : phase.afterDrain = false)
    : ¬ DrainEnded (setPhase lane closing phase) := by
  rintro ⟨other, found, -, after⟩
  obtain rfl := Option.some.inj found
  exact absurd (before.symm.trans after) (by simp)

omit [DecidableEq Resource] in
/-- The drain had ended if it has after a phase that follows it. -/
theorem drainEnded_of_setPhase (found : lane.closing = some closing) {phase : Phase}
    (after : closing.phase.afterDrain = true) (ended : DrainEnded (setPhase next closing phase))
    : DrainEnded lane := by
  obtain ⟨other, same, disposing, -⟩ := ended
  obtain rfl := Option.some.inj same
  exact ⟨closing, found, disposing, after⟩

/-- The drain before the finalizer ends only without tracked work, when every known resource
has been disposed.
-/
theorem drainEnded_advance (disposals : Disposals lane) (found : lane.closing = some closing)
    (ended : DrainEnded (advance lane closing))
    : DrainEnded lane ∨ ∀ resource, Known lane resource → Finished lane resource := by
  by_cases before : DrainEnded lane
  · exact .inl before
  refine .inr fun resource known => ?_
  unfold advance drain at ended
  split at ended
  · exact absurd ended before
  · exact absurd ended before
  · split at ended
    · split at ended
      · exact absurd ended (not_drainEnded_setPhase rfl)
      · exact absurd ended (not_drainEnded_setPhase rfl)
    · split at ended
      · exact absurd ended (not_drainEnded_setPhase rfl)
      · exact absurd ended before
  · exact absurd ended (not_drainEnded_setPhase rfl)
  · split at ended
    · exact absurd ended (not_drainEnded_setPhase rfl)
    · exact absurd ended before
  · next awaited phase =>
    split at ended
    · next =>
      split at ended
      · next idle =>
        have nothing := disposals.taken closing found (.inr ⟨_, phase⟩)
        rcases known with ⟨owned, some_, -⟩ | released
        · rw [nothing] at some_
          cases some_
        · obtain ⟨task, isTask⟩ := Option.isSome_iff_exists.mp released
          rcases disposals.pending resource task isTask with settled | member
          · exact ⟨task, isTask, settled⟩
          · rw [List.isEmpty_iff.mp idle] at member
            cases member
      · exact absurd ended (not_drainEnded_setPhase rfl)
    · split at ended
      · exact absurd ended (not_drainEnded_setPhase rfl)
      · exact absurd ended before
  · next phase => exact absurd (drainEnded_of_setPhase found (by rw [phase]; rfl) ended) before
  · next phase => exact absurd (drainEnded_of_setPhase found (by rw [phase]; rfl) ended) before
  · next phase =>
    split at ended
    · split at ended
      · exact absurd (drainEnded_of_setPhase found (by rw [phase]; rfl) ended) before
      · exact absurd (drainEnded_of_setPhase found (by rw [phase]; rfl) ended) before
    · split at ended
      · exact absurd (drainEnded_of_setPhase found (by rw [phase]; rfl) ended) before
      · exact absurd ended before

omit [DecidableEq Resource] in
theorem not_drainEnded_closeWith (disposing : Bool)
    (ended : DrainEnded (closeWith lane disposing).1)
    : DrainEnded lane := by
  unfold closeWith at ended
  split at ended
  · exact ended
  · obtain ⟨other, same, -, after⟩ := ended
    obtain rfl := Option.some.inj same
    cases after

omit [DecidableEq Resource] in
/-- Starting the closing task ends no drain: a plain `close` has none. -/
theorem drainEnded_start {task : ℕ} {record : LaneTask Resource}
    (ended : DrainEnded (start lane task record))
    : DrainEnded lane := by
  unfold start at ended
  split at ended
  · exact ended
  · split at ended
    · split at ended
      · split at ended
        · split at ended
          · next closing closes =>
            unfold startBody at ended
            dsimp only at ended
            split at ended
            · exact absurd ended (not_drainEnded_setPhase rfl)
            · next plain =>
              obtain ⟨other, same, disposing, -⟩ := ended
              obtain rfl := Option.some.inj same
              exact absurd disposing plain
          · exact ended
        · exact drainEnded_of_closing rfl ended
      · exact ended
    · exact drainEnded_of_closing rfl ended
    · exact ended
    · exact drainEnded_of_closing rfl ended

/-- Only the closing task's own resumption ends the drain, when all known resources have
been disposed.
-/
theorem drainEnded_step (disposals : Disposals lane) (event : Event Resource)
    (ended : DrainEnded (step lane event))
    : DrainEnded lane
      ∨ event = .advance ∧ ∀ resource, Known lane resource → Finished lane resource := by
  cases event with
  | run =>
      unfold step run at ended
      dsimp only at ended
      split at ended
      · exact .inl ended
      · exact .inl (drainEnded_of_closing rfl ended)
  | close => exact .inl (not_drainEnded_closeWith false ended)
  | dispose => exact .inl (not_drainEnded_closeWith true ended)
  | admitOperation =>
      unfold step admitOperation at ended
      dsimp only at ended
      split at ended
      · exact .inl ended
      · exact .inl (drainEnded_of_closing (by exact track_closing _) ended)
  | serialize =>
      unfold step serialize at ended
      dsimp only at ended
      split at ended
      · exact .inl ended
      · exact .inl (drainEnded_of_closing (by exact track_closing _) ended)
  | trackNew => exact .inl (drainEnded_of_closing (by exact track_closing _) ended)
  | trackTask task =>
      unfold step at ended
      dsimp only at ended
      split at ended
      · exact .inl (drainEnded_of_closing (by exact track_closing _) ended)
      · exact .inl ended
  | own resource => exact .inl (drainEnded_of_closing (sameLane_own lane resource).closing ended)
  | release resource =>
      exact .inl (drainEnded_of_closing (sameLane_release lane resource).closing ended)
  | start task =>
      unfold step at ended
      dsimp only at ended
      split at ended
      · exact .inl (drainEnded_start ended)
      · exact .inl ended
  | settle task =>
      unfold step settle at ended
      dsimp only at ended
      split at ended
      · split at ended
        · exact .inl ended
        · exact .inl (drainEnded_of_closing rfl ended)
        · exact .inl ended
      · exact .inl ended
  | untrack task =>
      unfold step untrack at ended
      dsimp only at ended
      split at ended
      · exact .inl (drainEnded_of_closing rfl ended)
      · exact .inl ended
  | advance =>
      unfold step at ended
      dsimp only at ended
      split at ended
      · next closing found =>
        exact (drainEnded_advance disposals found ended).imp_right fun finished => ⟨rfl, finished⟩
      · exact .inl ended

-- Runs

/-- The lane after a run of calls and resumptions. -/
def afterEvents (events : List (Event Resource)) : Lane Resource :=
  runAll step initial events

/-- The resource was owned by a call made before the drain that precedes the finalizer had
ended.
-/
def OwnedInTime (events : List (Event Resource)) (resource : Resource) : Prop :=
  ∃ before after,
    events = before ++ .own resource :: after ∧ ¬ DrainEnded (afterEvents before)

/-- What the lane guarantees after a run. -/
structure Lifecycle (events : List (Event Resource)) : Prop where
  /-- A lane task has not started before every earlier one settled. -/
  inOrder
    : ∀ earlier later : ℕ,
        IsLane (afterEvents events) earlier
        → IsLane (afterEvents events) later
        → earlier < later
        → statusAt (afterEvents events) later ≠ some .waiting
        → statusAt (afterEvents events) earlier = some .settled
  /-- The closing task is the last of the lane. -/
  closesLast
    : ∀ closing : Closing,
        (afterEvents events).closing = some closing
        → ∀ task, IsLane (afterEvents events) task → task ≤ closing.task
  /-- The closing body has run once as soon as the closing task has started, and the
  finalizer once when it has settled; neither ever runs again. -/
  closesOnce
    : ∀ closing : Closing,
        (afterEvents events).closing = some closing
        → (afterEvents events).bodyRuns
            = (if statusAt (afterEvents events) closing.task = some .waiting then 0 else 1)
          ∧ (statusAt (afterEvents events) closing.task = some .settled
            → (afterEvents events).finalizerRuns = 1)
  closesOnly
    : (afterEvents events).closing = none
      → (afterEvents events).bodyRuns = 0 ∧ (afterEvents events).finalizerRuns = 0
  finalizesOnce : (afterEvents events).finalizerRuns ≤ 1
  /-- The closing body can start when every operation enqueued before it settled. -/
  closes
    : ∀ closing : Closing,
        (afterEvents events).closing = some closing
        → (∀ task < closing.task,
            IsLane (afterEvents events) task → statusAt (afterEvents events) task = some .settled)
        → (afterEvents (events ++ [.start closing.task])).bodyRuns = 1
  /-- Later calls of `run`, `close` and `dispose` return the closing task and start nothing. -/
  joins
    : ∀ closing : Closing,
        (afterEvents events).closing = some closing
        → run (afterEvents events) = (afterEvents events, closing.task)
          ∧ close (afterEvents events) = (afterEvents events, closing.task)
          ∧ dispose (afterEvents events) = (afterEvents events, closing.task)
  disposesOnce : ∀ resource : Resource, (afterEvents events).disposals.count resource ≤ 1
  /-- From the end of the last drain on, so in particular when the finalizer starts, every
  resource owned in time has finished disposing. -/
  disposesInTime
    : ∀ resource : Resource,
        DrainEnded (afterEvents events)
        → OwnedInTime events resource
        → Finished (afterEvents events) resource

theorem afterEvents_snoc (events : List (Event Resource)) (event : Event Resource)
    : afterEvents (events ++ [event]) = step (afterEvents events) event :=
  runAll_snoc step initial events event

theorem afterEvents_ordered (events : List (Event Resource)) : Ordered (afterEvents events) :=
  runAll_invariant Ordered initial_ordered (fun _ event ordered => ordered.step event) events

theorem afterEvents_disposals (events : List (Event Resource))
    : Disposals (afterEvents events) := by
  have both := runAll_invariant
    (fun lane : Lane Resource => Ordered lane ∧ Disposals lane)
    ⟨initial_ordered, initial_disposals⟩
    (fun _ event sound => ⟨sound.1.step event, sound.2.step sound.1 event⟩) events
  exact both.2

/-- A resource owned by some call of the run is known after it. -/
theorem known_of_mem {events : List (Event Resource)} {resource : Resource}
    (owned : .own resource ∈ events)
    : Known (afterEvents events) resource := by
  induction events using List.reverseRecOn with
  | nil => cases owned
  | append_singleton events event ih =>
      rw [afterEvents_snoc]
      rcases List.mem_append.mp owned with old | last
      · exact (progress_step (afterEvents_ordered events) event).known resource (ih old)
      · rw [← List.mem_singleton.mp last]
        exact known_own _ resource

/-- Resources owned in time have been disposed since the drain ended, by induction over the
run: the step that ends the drain finds them disposed, and no later one takes it back.
-/
theorem finished_of_drainEnded (events : List (Event Resource)) {resource : Resource}
    (ended : DrainEnded (afterEvents events)) (inTime : OwnedInTime events resource)
    : Finished (afterEvents events) resource := by
  induction events using List.reverseRecOn with
  | nil =>
      obtain ⟨before, after, split, -⟩ := inTime
      simp at split
  | append_singleton events event ih =>
      have progress := progress_step (afterEvents_ordered events) event
      rw [afterEvents_snoc] at ended ⊢
      obtain ⟨before, after, split, notEnded⟩ := inTime
      rcases drainEnded_step (afterEvents_disposals events) event ended with earlier | ends
      · refine progress.finished (ih earlier ?_)
        rcases List.eq_nil_or_concat after with rfl | ⟨rest, last, rfl⟩
        · obtain ⟨same, -⟩ := List.append_inj' split rfl
          exact absurd (same ▸ earlier) notEnded
        · rw [List.concat_eq_append, ← List.cons_append, ← List.append_assoc] at split
          obtain ⟨same, -⟩ := List.append_inj' split rfl
          exact ⟨before, rest, same, notEnded⟩
      · obtain ⟨isAdvance, finished⟩ := ends
        refine progress.finished (finished resource (known_of_mem ?_))
        have member : Event.own resource ∈ events ++ [event] := by simp [split]
        rcases List.mem_append.mp member with old | last
        · exact old
        · rw [isAdvance] at last
          simp at last

theorem Phase.finalizerRuns_le_one (phase : Phase) : phase.finalizerRuns ≤ 1 := by
  cases phase <;> simp [Phase.finalizerRuns]

/-- The closing body has run once its task started behind settled operations. -/
theorem Ordered.bodyRuns_start (ordered : Ordered lane) (found : lane.closing = some closing)
    (settled
      : ∀ task < closing.task, IsLane lane task → statusAt lane task = some .settled)
    : (RuntimeLifecycle.step lane (.start closing.task)).bodyRuns = 1 := by
  obtain ⟨-, ⟨predecessor, kind⟩, status⟩ := ordered.closingTask closing found
  have bodies := ordered.bodyRuns_of_closing found
  obtain ⟨record, present, isKind⟩ := Option.map_eq_some_iff.mp kind
  have isStatus : record.status = closing.phase.status := by
    rw [statusAt, present, Option.map_some, Option.some.injEq] at status
    exact status
  have ready : predecessor.all (hasSettled lane) = true := by
    cases predecessor with
    | none => rfl
    | some earlier =>
        obtain ⟨smaller, isLane, -⟩ := ordered.chain.follows closing.task earlier true kind
        exact hasSettled_iff.mpr (settled earlier smaller isLane)
  unfold RuntimeLifecycle.step
  simp only [present]
  unfold RuntimeLifecycle.start
  by_cases waiting : record.status = .waiting
  · have phase : closing.phase = .waiting := by
      rw [isStatus] at waiting
      cases at_ : closing.phase <;> simp [at_, Phase.status] at waiting ⊢
    rw [phase] at bodies
    rw [if_neg (by simp [waiting]), isKind]
    simp only [ready, if_true, found]
    unfold RuntimeLifecycle.startBody
    dsimp only
    split
    · exact congrArg (· + 1) bodies
    · exact congrArg (· + 1) bodies
  · rw [if_pos waiting, bodies]
    rw [isStatus] at waiting
    cases at_ : closing.phase <;> simp [at_, Phase.status, Phase.bodyRuns] at waiting ⊢

/-- For every run of calls and resumptions: lane operations run one at a time in admission
order, one closing body runs after all of them and later calls join it, every resource is
disposed at most once, and the finalizer of `dispose` finds every resource disposed that was
owned before the drain preceding it ended.
-/
theorem afterEvents_lifecycle (events : List (Event Resource)) : Lifecycle events where
  inOrder earlier later earlierLane laterLane before started :=
    (afterEvents_ordered events).chain.settled_of_started earlierLane laterLane before started
  closesLast closing found task isLane := by
    have ordered := afterEvents_ordered events
    obtain ⟨tail, -, -⟩ := ordered.closingTask closing found
    exact (ordered.chain.tailSome closing.task tail).2 task isLane
  closesOnce closing found := by
    have ordered := afterEvents_ordered events
    obtain ⟨-, -, status⟩ := ordered.closingTask closing found
    rw [ordered.bodyRuns_of_closing found, ordered.finalizerRuns_of_closing found, status]
    cases closing.phase <;> simp [Phase.bodyRuns, Phase.status, Phase.finalizerRuns]
  closesOnly absent := by
    have ordered := afterEvents_ordered events
    rw [ordered.bodyRuns, ordered.finalizerRuns, absent]
    exact ⟨rfl, rfl⟩
  finalizesOnce := by
    rw [(afterEvents_ordered events).finalizerRuns]
    cases (afterEvents events).closing with
    | none => exact Nat.zero_le _
    | some closing => exact closing.phase.finalizerRuns_le_one
  closes closing found settled := by
    rw [afterEvents_snoc]
    exact (afterEvents_ordered events).bodyRuns_start found settled
  joins closing found := by
    have isTask : closeTask (afterEvents events) = some closing.task := by
      rw [closeTask, found]
      rfl
    unfold run close dispose closeWith
    rw [isTask]
    exact ⟨rfl, rfl, rfl⟩
  disposesOnce resource := (afterEvents_disposals events).count_le_one resource
  disposesInTime resource ended inTime := finished_of_drainEnded events ended inTime

/-- A resource owned between the end of the last drain and the finalizer: the drain finds no
work, the resource is owned, and the finalizer starts.
-/
def lateOwn : List (Event ℕ) :=
  [.dispose, .start 0, .advance, .advance, .advance, .advance, .own 7]

/-- The resource was owned before the finalizer started, yet its disposal has not even begun
when the finalizer runs.
-/
theorem lateOwn_undisposed
    : (afterEvents lateOwn).finalizerRuns = 0
      ∧ (afterEvents (lateOwn ++ [.advance])).finalizerRuns = 1
      ∧ .own 7 ∈ lateOwn
      ∧ (afterEvents (lateOwn ++ [.advance])).released.get? 7 = some 1
      ∧ statusAt (afterEvents (lateOwn ++ [.advance])) 1 = some .waiting
      ∧ (afterEvents (lateOwn ++ [.advance])).disposals = [] := by
  decide

end SpeculativeAction.RuntimeLifecycle
