import SpeculativeAction.Library.NumberSums
import SpeculativeAction.Library.OrderedMap
import SpeculativeAction.Scheduler.Order

/-! One physical ledger for all sessions: admission against the sampled headroom, what running
work is charged, resource samples, and the choice of work to preempt.
-/

namespace SpeculativeAction.Scheduler

open SpeculativeAction.Library

-- The ledger

section Entries

inductive Role where
  | execution
  | preparation
  | actor
deriving DecidableEq, Repr

/-- The normalized settings that admission reads. -/
structure SchedulingPolicy where
  failureThreshold : ℕ
  failureRetryDecisions : ℕ
deriving DecidableEq, Repr

structure SchedulingScope (Owner : Type) where
  owner : Owner
  limit : JsNumber
  scheduling : SchedulingPolicy

structure ExecutionIdentity where
  tool : String
  semanticsEpoch : Option String
  executionFingerprint : Option String
  actionKeyHash : Option String
deriving DecidableEq, Repr

/-- One admitted job, which is its key; its units are a charge. -/
structure SchedulerEntry (Owner : Type) where
  scope : SchedulingScope Owner
  role : Role
  sequence : ℕ
  work : ScheduledWork
  charged : work.resourceUnits.IsAmount

/-- Whether one probe is allowed in a decision. -/
structure ProbeDecision where
  sequence : ℕ
  probes : ℕ
  allowed : Bool
deriving DecidableEq, Repr

structure Failure (Owner : Type) where
  count : ℕ
  decisions : OrderedMap Owner ProbeDecision

structure SpeculationScheduler (Job Owner : Type) where
  entries : OrderedMap Job (SchedulerEntry Owner) := .empty
  failures : OrderedMap ExecutionIdentity (Failure Owner) := .empty
  sequence : ℕ := 0
  decisionSequence : ℕ := 0
  capacity : HardwareResources := fun _ => none
  admission : HardwareResources := fun _ => none

variable {Job Owner : Type} [DecidableEq Job] [DecidableEq Owner]

/-- What the host has of its resources; measured values may be missing. -/
structure ExecutionResourceSnapshot where
  cpuCount : JsNumber
  idleCpuCount : Option JsNumber := none
  capacity : HardwareResources := fun _ => none
  available : HardwareResources := fun _ => none

inductive RefusalReason where
  | outsideLaunchWindow
  | failureCircuit
  | budgetExhausted
deriving DecidableEq, Repr

/-- Why a job was not admitted, if it was not. -/
abbrev SchedulerAdmission := Option RefusalReason

inductive Shortage where
  | scope
  | resource (key : Dimension)
deriving DecidableEq, Repr

end Entries

-- Totals

section Totals

variable {Job Owner : Type} [DecidableEq Owner]

/-- `add`: the source's amounts on top of the target's. -/
def addResources (target source : HardwareResources) : HardwareResources := fun key =>
  match source key with
  | some amount => some (((target key).getD zero).add (nonNegativeFinite (some amount)))
  | none => target key

def noResources : HardwareResources := fun _ => none

/-- What entries are charged, on top of a first amount. -/
def totalResources (first : HardwareResources) (entries : List (Job × SchedulerEntry Owner))
    : HardwareResources :=
  entries.foldl (fun total entry => addResources total entry.2.work.resources) first

/-- The units charged to one owner, on top of a first amount. -/
def scopedUnits (first : JsNumber) (owner : Owner) (entries : List (Job × SchedulerEntry Owner))
    : JsNumber :=
  entries.foldl
    (fun units entry =>
      if entry.2.scope.owner = owner then units.add entry.2.work.resourceUnits else units)
    first

/-- A capacity that was never measured; only the optional devices are missing then. -/
def limitOf (capacity : HardwareResources) (key : Dimension) : JsNumber :=
  (capacity key).getD (if key = .gpu ∨ key = .gpuMemory then zero else .infinite false)

/-- What is short when the incoming work joins the entries. -/
def shortages (capacity : HardwareResources) (incoming : Option ScheduledWork)
    (scope : SchedulingScope Owner) (entries : List (Job × SchedulerEntry Owner))
    : List Shortage :=
  let total :=
    totalResources (addResources noResources ((incoming.map (·.resources)).getD noResources)) entries
  let units := scopedUnits ((incoming.map (·.resourceUnits)).getD zero) scope.owner entries
  (if units.exceeds scope.limit then [.scope] else [])
    ++ (dimensions.filter fun key =>
        ((total key).getD zero).exceeds (limitOf capacity key)).map .resource

end Totals

-- Operations

namespace SpeculationScheduler

variable {Job Owner : Type} [DecidableEq Job] [DecidableEq Owner] (scheduler : SpeculationScheduler Job Owner)

/-- The admitted jobs in the order of their admission. -/
def snapshot : List (Job × SchedulerEntry Owner) := scheduler.entries.entries

/-- Advance with the live Actor and dependency frontier. -/
def ready (work : ScheduledWork) : Bool :=
  work.actorDemand || work.dependenciesResolved
    || decide (work.decisionBatchesUntilCall ≠ .nan ∧ work.criticalPathSteps ≠ .nan
      ∧ work.decisionBatchesUntilCall.place ≤ work.criticalPathSteps.place)

/-- The most recently used entry is the last one. -/
def touchFailure (identity : ExecutionIdentity) (failure : Failure Owner) : SpeculationScheduler Job Owner :=
  { scheduler with failures := (scheduler.failures.delete identity).set identity failure }

/-- Whether known failures let the execution be tried; a retry is decided once a decision. -/
def circuit (scope : SchedulingScope Owner) (identity : Option ExecutionIdentity)
    : SpeculationScheduler Job Owner × Bool :=
  match identity with
  | none => (scheduler, true)
  | some identity =>
      match scheduler.failures.get? identity with
      | none => (scheduler, true)
      | some failed =>
          if scope.scheduling.failureThreshold ≤ failed.count then
            let known := failed.decisions.get? scope.owner
            let probes := (known.map (·.probes)).getD 0 + 1
            let decision : ProbeDecision :=
              match known.filter fun decision => decision.sequence = scheduler.decisionSequence with
              | some decision => decision
              | none =>
                  { sequence := scheduler.decisionSequence
                    probes := probes
                    allowed := decide (probes % scope.scheduling.failureRetryDecisions = 0) }
            (scheduler.touchFailure identity
                { failed with decisions := failed.decisions.set scope.owner decision },
              decision.allowed)
          else (scheduler.touchFailure identity failed, true)

theorem charged_evaluate (forecasts : List PredictionForecast)
    : (evaluate forecasts).resourceUnits.IsAmount := by
  have first : one.value? = some 1 := by decide +kernel
  have known : JsNumber.isFinite (((resourcesOf forecasts) .cpu).getD zero) = true := by
    cases cpu : resourcesOf forecasts .cpu with
    | none => exact isFinite_zero
    | some amount => exact isFinite_resourcesOf forecasts .cpu amount cpu
  obtain ⟨value, exact_⟩ := JsNumber.isFinite_iff.mp known
  rcases JsNumber.max_eq_or (JsNumber.hasPlace_of_value? first).1
    (JsNumber.hasPlace_of_value? exact_).1 with same | ⟨same, less⟩
  · exact ⟨1, by rw [evaluate, same, first], by norm_num⟩
  · refine ⟨value, by rw [evaluate, same, exact_], ?_⟩
    rw [JsNumber.place_of_value? first, JsNumber.place_of_value? exact_] at less
    have above : (1 : ℚ) < value := by exact_mod_cast less
    linarith

/-- Charge a job with the work of its forecasts. -/
def charge (job : Job) (forecasts : List PredictionForecast) (scope : SchedulingScope Owner)
    (role : Role)
    : SpeculationScheduler Job Owner :=
  { scheduler with
    entries :=
      scheduler.entries.set job
        { scope := scope
          role := role
          sequence := scheduler.sequence
          work := evaluate forecasts
          charged := charged_evaluate forecasts }
    sequence := scheduler.sequence + 1 }

/-- Work for the Actor is always admitted. Everything else must be near, not known to fail,
and fit.
-/
def admitJob (job : Job) (forecasts : List PredictionForecast) (scope : SchedulingScope Owner)
    (role : Role) (identity : Option ExecutionIdentity)
    : SpeculationScheduler Job Owner × SchedulerAdmission :=
  let work := evaluate forecasts
  if role ≠ .actor ∧ work.actorDemand = false then
    if ready work = false then (scheduler, some .outsideLaunchWindow)
    else
      let tried := scheduler.circuit scope identity
      if tried.2 = false then (tried.1, some .failureCircuit)
      else if shortages tried.1.admission (some work) scope tried.1.snapshot ≠ [] then
        (tried.1, some .budgetExhausted)
      else (tried.1.charge job forecasts scope role, none)
  else (scheduler.charge job forecasts scope role, none)

/-- New forecasts of a job; the hardware its execution owns stays charged. -/
def refresh (job : Job) (forecasts : List PredictionForecast) : SpeculationScheduler Job Owner :=
  match scheduler.entries.get? job with
  | some entry =>
      { scheduler with
        entries :=
          scheduler.entries.set job
            { entry with
              work :=
                { evaluate forecasts with
                  resources := entry.work.resources
                  resourceUnits := entry.work.resourceUnits } } }
  | none => scheduler

def complete (job : Job) : SpeculationScheduler Job Owner :=
  { scheduler with entries := scheduler.entries.delete job }

def advance : SpeculationScheduler Job Owner :=
  { scheduler with decisionSequence := scheduler.decisionSequence + 1 }

/-- Failures are counted for the identities used last. -/
def observe (identity : ExecutionIdentity) (failed : Bool) : SpeculationScheduler Job Owner :=
  if failed = false then { scheduler with failures := scheduler.failures.delete identity }
  else
    let count := ((scheduler.failures.get? identity).map (·.count)).getD 0 + 1
    let stored := (scheduler.failures.delete identity).set identity { count, decisions := .empty }
    { scheduler with
      failures :=
        if stored.keys.length ≤ 1024 then stored
        else
          match stored.keys.head? with
          | some oldest => stored.delete oldest
          | none => stored }

/-- `Math.round`. -/
def round (number : JsNumber) : JsNumber :=
  match number.value? with
  | some value => .ofRat ⌊value + 1 / 2⌋
  | none => number

/-- The idle part of a dimension, as far as it is known. -/
def idleOf (sample : ExecutionResourceSnapshot) (allocated : HardwareResources) (key : Dimension)
    : Option JsNumber :=
  if key = .cpu then
    some (sample.idleCpuCount.getD (ofBool (((allocated .cpu).getD zero).value? = some 0)))
  else sample.available key

/-- The headroom of a sample: what is allocated and what was idle, within the capacity. -/
def headroom (sample : ExecutionResourceSnapshot) (capacity allocated : HardwareResources)
    : HardwareResources := fun key =>
  match (idleOf sample allocated key).filter fun idle =>
      idle.isFinite && !zero.exceeds idle with
  | some idle =>
      some (((capacity key).getD (.infinite false)).min
        (((allocated key).getD zero).add (if key = .cpu then round idle else idle)))
  | none => capacity key

/-- The physical capacity that a sample reports. -/
def sampledCapacity (sample : ExecutionResourceSnapshot) : HardwareResources := fun key =>
  if key = .cpu then some (positiveCount (some sample.cpuCount)) else sample.capacity key

def updateResources (sample : ExecutionResourceSnapshot) : SpeculationScheduler Job Owner :=
  if sample.cpuCount.isFinite = false ∨ one.exceeds sample.cpuCount = true then scheduler
  else
    let capacity := sampledCapacity sample
    { scheduler with
      capacity := capacity
      admission := headroom sample capacity (totalResources noResources scheduler.snapshot) }

end SpeculationScheduler

-- Preemption

/-- The host's sort. What it does with an inconsistent comparison is its own affair, but it
keeps the items.
-/
structure HostSort (α : Type) where
  sort : (α → α → JsNumber) → List α → List α
  perm : ∀ compare items, (sort compare items).Perm items

namespace SpeculationScheduler

variable {Job Owner : Type} [DecidableEq Job] [DecidableEq Owner] (scheduler : SpeculationScheduler Job Owner)

/-- The order in which work is preempted: the last in turn, then the least elapsed. -/
def victimCompare (left right : Job × SchedulerEntry Owner) : JsNumber :=
  (compare scheduler.capacity right.2.work left.2.work).orElse <|
  (left.2.work.elapsedMs.sub right.2.work.elapsedMs).orElse <|
  (JsNumber.ofRat (Rat.ofInt (Int.ofNat right.2.sequence))).sub
    (JsNumber.ofRat (Rat.ofInt (Int.ofNat left.2.sequence)))

/-- Work that may be preempted for the incoming work. -/
def preemptible (incoming : Option ScheduledWork) (canPreempt : Job → Bool)
    (entry : Job × SchedulerEntry Owner)
    : Bool :=
  decide (entry.2.role ≠ .actor) && !entry.2.work.actorDemand && canPreempt entry.1
    && match incoming with
      | some work =>
          work.actorDemand
            || decide ((compare scheduler.capacity work entry.2.work).ordering = .lt)
      | none => true

/-- The entry holds a part of what is short. -/
def relieves (scope : SchedulingScope Owner) (missing : List Shortage)
    (entry : Job × SchedulerEntry Owner)
    : Bool :=
  missing.any fun shortage =>
    match shortage with
    | .scope => decide (entry.2.scope.owner = scope.owner)
    | .resource key => ((entry.2.work.resources key).getD zero).exceeds zero

/-- Whether the physical capacity counts and not the sampled headroom. -/
def physical (incoming : Option ScheduledWork) : Bool :=
  (incoming.map (·.actorDemand)).getD true

/-- What the incoming work lacks beside some entries. -/
def missing (incoming : Option ScheduledWork) (scope : SchedulingScope Owner)
    (entries : List (Job × SchedulerEntry Owner))
    : List Shortage :=
  shortages (if physical incoming then scheduler.capacity else scheduler.admission) incoming scope
    entries

/-- Choose victims one at a time until nothing is short or none is left to choose. -/
def selectVictims (host : HostSort (Job × SchedulerEntry Owner)) (scope : SchedulingScope Owner)
    (incoming : Option ScheduledWork) (canPreempt : Job → Bool)
    : ℕ → List (Job × SchedulerEntry Owner) → List Job
  | 0, _ => []
  | fuel + 1, remaining =>
      let short := scheduler.missing incoming scope remaining
      if short = [] then []
      else
        let candidates := remaining.filter fun entry =>
          scheduler.preemptible incoming canPreempt entry && relieves scope short entry
        match (host.sort scheduler.victimCompare candidates).head? with
        | none => []
        | some victim =>
            victim.1
              :: selectVictims host scope incoming canPreempt fuel
                (remaining.filter fun entry => entry.1 ≠ victim.1)

/-- Cancellation never returns capacity: draining work is left out only while more is chosen. -/
def preemptFor (host : HostSort (Job × SchedulerEntry Owner)) (scope : SchedulingScope Owner)
    (incoming : Option ScheduledWork) (canPreempt draining : Job → Bool)
    : List Job :=
  let remaining := scheduler.snapshot.filter fun entry => !draining entry.1
  if physical incoming = false ∧ scheduler.missing incoming scope [] ≠ [] then []
  else
    scheduler.selectVictims host scope incoming canPreempt remaining.length remaining

end SpeculationScheduler

end SpeculativeAction.Scheduler
