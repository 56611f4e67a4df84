import SpeculativeAction.Library.OrderedMap

/-! The lifecycle lane of one runtime session. Every promise of the lane is a task; a call and
every resumption of code that waits is one event, so calls may come from anywhere: from lane
operations, tracked tasks, disposers or outside.
-/

namespace SpeculativeAction.RuntimeLifecycle

open SpeculativeAction.Library

variable {Resource : Type} [DecidableEq Resource]

-- Tasks

inductive Status where
  | waiting | running | settled
deriving DecidableEq

/-- A lane task starts after the task that was the tail when it was enqueued; `closing` is
the one enqueued by `close`. An external task is a promise handed to `track`.
-/
inductive TaskKind (Resource : Type) where
  | lane (predecessor : Option ℕ) (closing : Bool)
  | admitted
  | external
  | release (resource : Resource)
deriving DecidableEq

structure LaneTask (Resource : Type) where
  kind : TaskKind Resource
  status : Status
deriving DecidableEq

/-- Where the closing task stands. A drain without a snapshot is about to look at the
tracked work, one with a snapshot waits for it.
-/
inductive Phase where
  | waiting
  | drainBorrowers (awaited : Option (List ℕ))
  | releaseOwned
  | awaitReleases (releases : List ℕ)
  | drainReleases (awaited : Option (List ℕ))
  | drained
  | finalizing
  | drainLast (awaited : Option (List ℕ))
  | finished
deriving DecidableEq

/-- The closing task: `dispose` drains and releases before the finalizer, a plain `close`
runs its operation at once.
-/
structure Closing where
  task : ℕ
  disposing : Bool
  phase : Phase
deriving DecidableEq

/-- `owned` is undefined once the owned resources are being released. The last three fields
repeat what was called: the bodies of `close`, their finalizers, and `dispose` of resources.
-/
structure Lane (Resource : Type) where
  tasks : List (LaneTask Resource)
  work : List ℕ
  tail : Option ℕ
  closing : Option Closing
  owned : Option (List Resource)
  released : OrderedMap Resource ℕ
  bodyRuns : ℕ
  finalizerRuns : ℕ
  disposals : List Resource

def initial : Lane Resource where
  tasks := []
  work := []
  tail := none
  closing := none
  owned := some []
  released := OrderedMap.empty
  bodyRuns := 0
  finalizerRuns := 0
  disposals := []

-- Calls

section Calls

variable (lane : Lane Resource)

def closeTask : Option ℕ := lane.closing.map Closing.task

def isSealed : Bool := lane.closing.isSome

/-- A new promise; its place names it. -/
def spawn (kind : TaskKind Resource) (status : Status) : Lane Resource × ℕ :=
  ({ lane with tasks := lane.tasks ++ [⟨kind, status⟩] }, lane.tasks.length)

/-- The work is a set: a task tracked twice is kept once. -/
def track (task : ℕ) : Lane Resource :=
  if task ∈ lane.work then lane else { lane with work := lane.work ++ [task] }

/-- The new task waits for the tail and becomes the tail. -/
def enqueue (closing : Bool) : Lane Resource × ℕ :=
  let spawned := spawn lane (.lane lane.tail closing) .waiting
  ({ spawned.1 with tail := some spawned.2 }, spawned.2)

/-- `run` joins a closing lane. -/
def run : Lane Resource × ℕ :=
  match closeTask lane with
  | some task => (lane, task)
  | none => enqueue lane false

def closeWith (disposing : Bool) : Lane Resource × ℕ :=
  match closeTask lane with
  | some task => (lane, task)
  | none =>
      let enqueued := enqueue lane true
      ({ enqueued.1 with closing := some ⟨enqueued.2, disposing, .waiting⟩ }, enqueued.2)

def close : Lane Resource × ℕ := closeWith lane false

def dispose : Lane Resource × ℕ := closeWith lane true

/-- A sealed lane rejects. -/
def admitOperation : Lane Resource × Option ℕ :=
  if isSealed lane then
    (lane, none)
  else
    let spawned := spawn lane .admitted .waiting
    (track spawned.1 spawned.2, some spawned.2)

def serialize : Lane Resource × Option ℕ :=
  if isSealed lane then
    (lane, none)
  else
    let enqueued := enqueue lane false
    (track enqueued.1 enqueued.2, some enqueued.2)

def disown (resource : Resource) : Lane Resource :=
  { lane with owned := lane.owned.map fun owned => owned.erase resource }

/-- The tracked task that disposes of a resource. -/
def spawnRelease (resource : Resource) : Lane Resource × ℕ :=
  let spawned := spawn lane (.release resource) .waiting
  let tracked := track spawned.1 spawned.2
  ({ tracked with released := tracked.released.set resource spawned.2 }, spawned.2)

/-- A resource is released by one task; later calls return that task. -/
def release (resource : Resource) : Lane Resource × ℕ :=
  match lane.released.get? resource with
  | some task => (disown lane resource, task)
  | none => spawnRelease (disown lane resource) resource

/-- Owning is recorded until the owned resources are taken, then it releases at once. -/
def own (resource : Resource) : Lane Resource :=
  if lane.released.has resource then
    lane
  else
    match lane.owned with
    | some owned =>
        if resource ∈ owned then lane else { lane with owned := some (owned ++ [resource]) }
    | none => (release lane resource).1

end Calls

-- Resumptions

section Resumptions

variable (lane : Lane Resource)

def setStatus (task : ℕ) (status : Status) : Lane Resource :=
  { lane with tasks := lane.tasks.modify task fun record => { record with status } }

def hasSettled (task : ℕ) : Bool :=
  (lane.tasks[task]?).any fun record => record.status = .settled

def setPhase (closing : Closing) (phase : Phase) : Lane Resource :=
  { lane with closing := some { closing with phase } }

/-- The closing task starts: the body of `dispose` drains first, that of `close` is the
operation itself.
-/
def startBody (closing : Closing) : Lane Resource :=
  let lane := setStatus { lane with bodyRuns := lane.bodyRuns + 1 } closing.task .running
  if closing.disposing then
    setPhase lane closing (.drainBorrowers none)
  else
    setPhase { lane with finalizerRuns := lane.finalizerRuns + 1 } closing .finalizing

/-- A waiting task runs: a lane task after its predecessor settled, whatever its outcome,
an admitted task and a release at any time.
-/
def start (task : ℕ) (record : LaneTask Resource) : Lane Resource :=
  if record.status ≠ .waiting then
    lane
  else
    match record.kind with
    | .lane predecessor closing =>
        if predecessor.all (hasSettled lane) then
          if closing then
            match lane.closing with
            | some closing => startBody lane closing
            | none => lane
          else
            setStatus lane task .running
        else
          lane
    | .admitted => setStatus lane task .running
    | .external => lane
    | .release resource =>
        setStatus { lane with disposals := lane.disposals ++ [resource] } task .running

/-- The code of a running task ends, with a value or an error; the closing task ends by
itself.
-/
def settle (task : ℕ) (record : LaneTask Resource) : Lane Resource :=
  match record.kind, record.status with
  | .lane _ true, _ => lane
  | _, .running => setStatus lane task .settled
  | _, _ => lane

/-- The callback of `track` that forgets a settled task. -/
def untrack (task : ℕ) : Lane Resource :=
  if hasSettled lane task then { lane with work := lane.work.erase task } else lane

/-- The owned resources are taken and released in order. -/
def releaseAll : List Resource → Lane Resource → Lane Resource × List ℕ
  | [], lane => (lane, [])
  | resource :: rest, lane =>
      let first := release lane resource
      let others := releaseAll rest first.1
      (others.1, first.2 :: others.2)

/-- One turn of a drain loop: leave without tracked work, else wait for what there is. -/
def drain (closing : Closing) (awaited : Option (List ℕ)) (waits : Option (List ℕ) → Phase)
    (leave : Lane Resource → Lane Resource)
    : Lane Resource :=
  match awaited with
  | none =>
      if lane.work.isEmpty then leave lane else setPhase lane closing (waits (some lane.work))
  | some tasks =>
      if tasks.all (hasSettled lane) then setPhase lane closing (waits none) else lane

/-- The closing task resumes where it stands. -/
def advance (closing : Closing) : Lane Resource :=
  match closing.phase with
  | .waiting | .finished => lane
  | .drainBorrowers awaited =>
      drain lane closing awaited .drainBorrowers fun lane => setPhase lane closing .releaseOwned
  | .releaseOwned =>
      let released := releaseAll (lane.owned.getD []) { lane with owned := none }
      setPhase released.1 closing (.awaitReleases released.2)
  | .awaitReleases releases =>
      if releases.all (hasSettled lane) then
        setPhase lane closing (.drainReleases none)
      else
        lane
  | .drainReleases awaited =>
      drain lane closing awaited .drainReleases fun lane => setPhase lane closing .drained
  | .drained => setPhase { lane with finalizerRuns := lane.finalizerRuns + 1 } closing .finalizing
  | .finalizing => setPhase lane closing (.drainLast none)
  | .drainLast awaited =>
      drain lane closing awaited .drainLast fun lane =>
        setPhase (setStatus lane closing.task .settled) closing .finished

end Resumptions

-- The system

/-- `trackNew` hands a promise of the caller's to `track`, `trackTask` one of the lane's. -/
inductive Event (Resource : Type) where
  | run
  | close
  | dispose
  | admitOperation
  | serialize
  | trackNew
  | trackTask (task : ℕ)
  | own (resource : Resource)
  | release (resource : Resource)
  | start (task : ℕ)
  | settle (task : ℕ)
  | untrack (task : ℕ)
  | advance
deriving DecidableEq

def step (lane : Lane Resource) (event : Event Resource) : Lane Resource :=
  match event with
  | .run => (run lane).1
  | .close => (close lane).1
  | .dispose => (dispose lane).1
  | .admitOperation => (admitOperation lane).1
  | .serialize => (serialize lane).1
  | .trackNew =>
      let spawned := spawn lane .external .running
      track spawned.1 spawned.2
  | .trackTask task => if task < lane.tasks.length then track lane task else lane
  | .own resource => own lane resource
  | .release resource => (release lane resource).1
  | .start task =>
      match lane.tasks[task]? with
      | some record => start lane task record
      | none => lane
  | .settle task =>
      match lane.tasks[task]? with
      | some record => settle lane task record
      | none => lane
  | .untrack task => untrack lane task
  | .advance =>
      match lane.closing with
      | some closing => advance lane closing
      | none => lane

end SpeculativeAction.RuntimeLifecycle
