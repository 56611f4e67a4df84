import SpeculativeAction.Library.TransitionSystem
import SpeculativeAction.Scheduler.Preemption

/-! What the ledger bounds over whole runs: what an admission found to fit still fits after any
completions, refreshed forecasts, admissions elsewhere and samples that take no capacity away.
-/

namespace SpeculativeAction.Scheduler

open SpeculativeAction.Library

-- Runs of the ledger

section Runs

variable {Job Owner : Type} [DecidableEq Job] [DecidableEq Owner]

inductive LedgerEvent (Job Owner : Type) where
  | admitJob (job : Job) (forecasts : List PredictionForecast) (scope : SchedulingScope Owner)
      (role : Role) (identity : Option ExecutionIdentity)
  | refresh (job : Job) (forecasts : List PredictionForecast)
  | complete (job : Job)
  | observe (identity : ExecutionIdentity) (failed : Bool)
  | advance
  | sample (snapshot : ExecutionResourceSnapshot)

/-- The scheduler, with the latest admission of all and the latest one of every owner. -/
structure LedgerRun (Job Owner : Type) where
  scheduler : SpeculationScheduler Job Owner
  latest : Option Job := none
  latestOf : Owner → Option (Job × JsNumber) := fun _ => none

namespace LedgerRun

/-- A new scheduler has its initial sample, where it has a monitor. -/
def start (initial : Option ExecutionResourceSnapshot) : LedgerRun Job Owner :=
  match initial with
  | some sample => { scheduler := ({} : SpeculationScheduler Job Owner).updateResources sample }
  | none => { scheduler := {} }

def step (run : LedgerRun Job Owner) : LedgerEvent Job Owner → LedgerRun Job Owner
  | .admitJob job forecasts scope role identity =>
      let admission := run.scheduler.admitJob job forecasts scope role identity
      if admission.2 = none then
        { scheduler := admission.1
          latest := some job
          latestOf := fun owner =>
            if owner = scope.owner then some (job, scope.limit) else run.latestOf owner }
      else { run with scheduler := admission.1 }
  | .refresh job forecasts => { run with scheduler := run.scheduler.refresh job forecasts }
  | .complete job => { run with scheduler := run.scheduler.complete job }
  | .observe identity failed => { run with scheduler := run.scheduler.observe identity failed }
  | .advance => { run with scheduler := run.scheduler.advance }
  | .sample snapshot => { run with scheduler := run.scheduler.updateResources snapshot }

end LedgerRun

/-- An amount that fits into the earlier capacity fits into the later one. -/
def NonShrinking (earlier later : HardwareResources) : Prop :=
  ∀ key (amount : JsNumber),
    amount.exceeds (limitOf later key) = true → amount.exceeds (limitOf earlier key) = true

/-- No capacity is negative, and how much there is of a device is known when its idle part is. -/
structure Reported (sample : ExecutionResourceSnapshot) : Prop where
  nonneg : ∀ key capacity, sample.capacity key = some capacity → zero.exceeds capacity = false
  devices
    : ∀ key, key = .gpu ∨ key = .gpuMemory →
        sample.available key ≠ none → sample.capacity key ≠ none

/-- No work of the Actor is admitted, no job twice, and no sample takes capacity away. -/
def Allowed (run : LedgerRun Job Owner) : LedgerEvent Job Owner → Prop
  | .admitJob job forecasts _ role _ =>
      role ≠ .actor
        ∧ (evaluate forecasts).actorDemand = false
        ∧ run.scheduler.entries.get? job = none
  | .sample snapshot =>
      Reported snapshot
        ∧ NonShrinking run.scheduler.capacity (run.scheduler.updateResources snapshot).capacity
  | _ => True

/-- The order in which an admission adds up: itself, then the ledger. -/
def checkedOrder {Entry : Type} (latest : Option Job) (entries : List (Job × Entry))
    : List (Job × Entry) :=
  (entries.filter fun entry => some entry.1 = latest)
    ++ entries.filter fun entry => some entry.1 ≠ latest

/-- What the ledger is bounded by, with totals as the latest admission adds them up. -/
structure LedgerBounded (run : LedgerRun Job Owner) : Prop where
  known : ∀ entry ∈ run.scheduler.snapshot, run.latestOf entry.2.scope.owner ≠ none
  scopes
    : ∀ owner job limit, run.latestOf owner = some (job, limit) →
        (scopedUnits zero owner (checkedOrder (some job) run.scheduler.snapshot)).exceeds limit
          = false
  physical
    : ∀ key,
        (((totalResources noResources (checkedOrder run.latest run.scheduler.snapshot))
          key).getD zero).exceeds (limitOf run.scheduler.capacity key)
          = false

end Runs

-- What entries are charged

section Charges

variable {Job Owner : Type} [DecidableEq Job] [DecidableEq Owner]
variable {scheduler : SpeculationScheduler Job Owner}
  {forecasts : List PredictionForecast} {scope : SchedulingScope Owner}
  {identity : Option ExecutionIdentity}

structure Charge (Owner : Type) where
  owner : Owner
  resources : HardwareResources
  resourceUnits : JsNumber

def chargeOf (entry : Job × SchedulerEntry Owner) : Job × Charge Owner :=
  (entry.1,
    { owner := entry.2.scope.owner
      resources := entry.2.work.resources
      resourceUnits := entry.2.work.resourceUnits })

def charges (scheduler : SpeculationScheduler Job Owner) : List (Job × Charge Owner) :=
  scheduler.snapshot.map chargeOf

omit [DecidableEq Owner] in
/-- New forecasts charge no entry anew. -/
theorem charges_refresh (scheduler : SpeculationScheduler Job Owner) (job : Job)
    (forecasts : List PredictionForecast)
    : charges (scheduler.refresh job forecasts) = charges scheduler := by
  unfold SpeculationScheduler.refresh
  split
  next entry found => exact OrderedMap.map_entries_set found chargeOf rfl
  next => rfl

omit [DecidableEq Job] in
/-- Trying the failure circuit touches only what is known of failures. -/
theorem ledger_circuit (scheduler : SpeculationScheduler Job Owner) (scope : SchedulingScope Owner)
    (identity : Option ExecutionIdentity)
    : (scheduler.circuit scope identity).1.snapshot = scheduler.snapshot
      ∧ (scheduler.circuit scope identity).1.capacity = scheduler.capacity
      ∧ (scheduler.circuit scope identity).1.admission = scheduler.admission := by
  unfold SpeculationScheduler.circuit SpeculationScheduler.touchFailure
  split
  next => exact ⟨rfl, rfl, rfl⟩
  next =>
    split
    next => exact ⟨rfl, rfl, rfl⟩
    next =>
      split
      next => exact ⟨rfl, rfl, rfl⟩
      next => exact ⟨rfl, rfl, rfl⟩

/-- A refused admission leaves the ledger as it is. -/
theorem ledger_refused {job : Job} {role : Role}
    (refused : (scheduler.admitJob job forecasts scope role identity).2 ≠ none)
    : (scheduler.admitJob job forecasts scope role identity).1.snapshot = scheduler.snapshot
      ∧ (scheduler.admitJob job forecasts scope role identity).1.capacity = scheduler.capacity
      ∧ (scheduler.admitJob job forecasts scope role identity).1.admission
        = scheduler.admission := by
  unfold SpeculationScheduler.admitJob at refused ⊢
  dsimp only at refused ⊢
  split at refused
  next ordinary =>
    rw [if_pos ordinary]
    split at refused
    next distant =>
      rw [if_pos distant]
      exact ⟨rfl, rfl, rfl⟩
    next near =>
      rw [if_neg near]
      split at refused
      next failing =>
        rw [if_pos failing]
        exact ledger_circuit scheduler scope identity
      next trying =>
        rw [if_neg trying]
        split at refused
        next short =>
          rw [if_pos short]
          exact ledger_circuit scheduler scope identity
        next => exact absurd rfl refused
  next => exact absurd rfl refused

/-- Ordinary work is admitted by charging it, and only where nothing is short. -/
theorem ledger_admitted {job : Job} {role : Role} (execution : role ≠ .actor)
    (ordinary : (evaluate forecasts).actorDemand = false)
    (fresh : scheduler.entries.get? job = none)
    (admitted : (scheduler.admitJob job forecasts scope role identity).2 = none)
    : (∃ entry,
        (scheduler.admitJob job forecasts scope role identity).1.snapshot
          = scheduler.snapshot ++ [(job, entry)]
        ∧ entry.scope = scope
        ∧ entry.work = evaluate forecasts)
      ∧ (scheduler.admitJob job forecasts scope role identity).1.capacity = scheduler.capacity
      ∧ (scheduler.admitJob job forecasts scope role identity).1.admission = scheduler.admission
      ∧ shortages scheduler.admission (some (evaluate forecasts)) scope scheduler.snapshot = [] := by
  have absent : job ∉ scheduler.snapshot.map Prod.fst :=
    OrderedMap.get?_eq_none_iff.mp fresh
  obtain ⟨same, capacity, admission⟩ := ledger_circuit scheduler scope identity
  unfold SpeculationScheduler.admitJob at admitted ⊢
  dsimp only at admitted ⊢
  rw [if_pos ⟨execution, ordinary⟩] at admitted ⊢
  split at admitted
  next => cases admitted
  next near =>
    rw [if_neg near]
    split at admitted
    next => cases admitted
    next trying =>
      rw [if_neg trying]
      split at admitted
      next => cases admitted
      next short =>
        rw [if_neg short]
        let entry : SchedulerEntry Owner :=
          { scope := scope
            role := role
            sequence := (scheduler.circuit scope identity).1.sequence
            work := evaluate forecasts
            charged := SpeculationScheduler.charged_evaluate forecasts }
        refine ⟨⟨entry, ?_, rfl, rfl⟩, capacity, admission, ?_⟩
        · rw [← same] at absent
          rw [← same]
          exact OrderedMap.setEntries_of_fresh absent _
        · rw [admission, same, not_not] at short
          exact short

end Charges

-- Samples

section Samples

variable {Job Owner : Type} [DecidableEq Job] [DecidableEq Owner]
variable {sample : ExecutionResourceSnapshot} {capacity allocated : HardwareResources}

theorem value?_zero : zero.value? = some 0 := by
  decide +kernel

theorem exceeds_infinite (amount : JsNumber) : amount.exceeds (.infinite false) = false := by
  refine decide_eq_false fun over_ => ?_
  exact absurd over_.2.2 (not_lt_of_ge (show amount.place ≤ ⊤ from le_top))

/-- The smaller of two numbers is exceeded by what exceeds the first. -/
theorem exceeds_min {amount left right : JsNumber} (known : right ≠ .nan)
    (over_ : amount.exceeds left = true)
    : amount.exceeds (left.min right) = true := by
  obtain ⟨amountKnown, leftKnown, above⟩ := of_decide_eq_true over_
  unfold JsNumber.min
  rw [if_neg (not_or.mpr ⟨leftKnown, known⟩)]
  split
  next less => exact decide_eq_true ⟨amountKnown, known, less.trans above⟩
  next => exact over_

omit [DecidableEq Job] [DecidableEq Owner] in
/-- A total of what entries are charged has a place. -/
theorem hasPlace_totalResources (entries : List (Job × SchedulerEntry Owner)) (key : Dimension)
    : (((totalResources noResources entries) key).getD zero).HasPlace := by
  rw [totalResources_eq_sum]
  refine JsNumber.ExceedsMore.hasPlace value?_zero ?_
  refine JsNumber.ExceedsMore.sumFrom_sublist (List.nil_sublist _) (fun amount listed => ?_) zero
  obtain ⟨entry, -, counted⟩ := List.mem_filterMap.mp listed
  exact isAmount_amountOf counted

theorem hasPlace_round {idle : JsNumber} (finite : idle.isFinite = true)
    (nonneg : zero.exceeds idle = false)
    : (SpeculationScheduler.round idle).HasPlace := by
  obtain ⟨value, exact_⟩ := JsNumber.isFinite_iff.mp finite
  have positive : 0 ≤ value := by
    by_contra negative
    refine Bool.false_ne_true (nonneg.symm.trans (decide_eq_true ⟨?_, ?_, ?_⟩))
    · exact (JsNumber.hasPlace_of_value? value?_zero).1
    · exact (JsNumber.hasPlace_of_value? exact_).1
    · rw [JsNumber.place_of_value? value?_zero, JsNumber.place_of_value? exact_]
      exact_mod_cast not_le.mp negative
  have whole : (0 : ℚ) ≤ ⌊value + 1 / 2⌋ := by
    exact_mod_cast Int.floor_nonneg.mpr (by linarith)
  unfold SpeculationScheduler.round
  rw [exact_]
  refine JsNumber.ExceedsMore.hasPlace value?_zero (.inr ⟨JsNumber.ofRat_ne_nan _, ?_⟩)
  rw [← JsNumber.place_ofRat_of_value? value?_zero]
  exact JsNumber.ofRat_place_mono whole

/-- Headroom is capacity or less: what exceeds the capacity exceeds it. -/
theorem headroom_within (reported
      : ∀ key, key = .gpu ∨ key = .gpuMemory → sample.available key ≠ none → capacity key ≠ none)
    (placed : ∀ key, ((allocated key).getD zero).HasPlace)
    : NonShrinking (SpeculationScheduler.headroom sample capacity allocated) capacity := by
  intro key amount over_
  unfold limitOf SpeculationScheduler.headroom
  split
  next idle found =>
    obtain ⟨stated, measured⟩ := Option.filter_eq_some_iff.mp found
    obtain ⟨finite, nonneg⟩ := Bool.and_eq_true_iff.mp measured
    rw [Option.getD_some]
    have idlePlace
        : (if key = .cpu then SpeculationScheduler.round idle else idle).HasPlace := by
      split
      next => exact hasPlace_round finite (Bool.not_eq_true' _ ▸ nonneg)
      next => exact .of_isFinite finite
    refine exceeds_min ((placed key).add_ne_nan idlePlace) ?_
    cases known : capacity key with
    | some bound =>
        rw [limitOf, known] at over_
        exact over_
    | none =>
        rw [limitOf, known, Option.getD_none] at over_
        split at over_
        next device =>
          -- the idle part of a device is reported together with the device
          have other : key ≠ .cpu := by
            rcases device with rfl | rfl <;> exact Dimension.noConfusion
          rw [SpeculationScheduler.idleOf, if_neg other] at stated
          refine absurd known (reported key device ?_)
          rw [stated]
          exact Option.some_ne_none idle
        next => exact over_
  next => exact over_

omit [DecidableEq Job] [DecidableEq Owner] in
/-- A sample is ignored, or replaces the capacity and what may be admitted. -/
theorem updateResources_cases (scheduler : SpeculationScheduler Job Owner)
    (sample : ExecutionResourceSnapshot)
    : scheduler.updateResources sample = scheduler
      ∨ (scheduler.updateResources sample).snapshot = scheduler.snapshot
        ∧ (scheduler.updateResources sample).capacity
          = SpeculationScheduler.sampledCapacity sample
        ∧ (scheduler.updateResources sample).admission
          = SpeculationScheduler.headroom sample (SpeculationScheduler.sampledCapacity sample)
              (totalResources noResources scheduler.snapshot) := by
  unfold SpeculationScheduler.updateResources
  split
  next => exact .inl rfl
  next => exact .inr ⟨rfl, rfl, rfl⟩

end Samples

-- What every event keeps

section Invariant

variable {Job Owner : Type} [DecidableEq Job] [DecidableEq Owner]
variable {scheduler next : SpeculationScheduler Job Owner} {run : LedgerRun Job Owner}
  {latest : Option Job} {others : List (Job × Charge Owner)} {entry : SchedulerEntry Owner}
  {scope : SchedulingScope Owner}

/-- What a charge adds to the units of an owner. -/
def chargedUnits (owner : Owner) (charge : Job × Charge Owner) : Option JsNumber :=
  if charge.2.owner = owner then some charge.2.resourceUnits else none

/-- What a charge adds to a dimension. -/
def chargedAmount (key : Dimension) (charge : Job × Charge Owner) : Option JsNumber :=
  (charge.2.resources key).map fun amount => nonNegativeFinite (some amount)

omit [DecidableEq Owner] in
theorem checkedOrder_charges (latest : Option Job) (scheduler : SpeculationScheduler Job Owner)
    : (checkedOrder latest scheduler.snapshot).map chargeOf
      = checkedOrder latest (charges scheduler) := by
  simp only [checkedOrder, charges, List.map_append, List.filter_map]
  rfl

theorem scopedUnits_checkedOrder (owner : Owner) (latest : Option Job)
    (scheduler : SpeculationScheduler Job Owner)
    : scopedUnits zero owner (checkedOrder latest scheduler.snapshot)
      = JsNumber.sumFrom zero
          ((checkedOrder latest (charges scheduler)).filterMap (chargedUnits owner)) := by
  rw [scopedUnits_eq_sum, ← checkedOrder_charges, List.filterMap_map]
  rfl

omit [DecidableEq Owner] in
theorem totalResources_checkedOrder (key : Dimension) (latest : Option Job)
    (scheduler : SpeculationScheduler Job Owner)
    : ((totalResources noResources (checkedOrder latest scheduler.snapshot)) key).getD zero
      = JsNumber.sumFrom zero
          ((checkedOrder latest (charges scheduler)).filterMap (chargedAmount key)) := by
  rw [totalResources_eq_sum, ← checkedOrder_charges, List.filterMap_map]
  rfl

theorem mem_of_checkedOrder {Entry : Type} {entries : List (Job × Entry)} {entry : Job × Entry}
    (listed : entry ∈ checkedOrder latest entries)
    : entry ∈ entries := by
  rcases List.mem_append.mp listed with first | rest
  · exact List.mem_of_mem_filter first
  · exact List.mem_of_mem_filter rest

theorem isAmount_chargedUnits {owner : Owner} {units : JsNumber}
    (counted
      : units ∈ (checkedOrder latest (charges scheduler)).filterMap (chargedUnits owner))
    : units.IsAmount := by
  obtain ⟨charge, listed, stated⟩ := List.mem_filterMap.mp counted
  obtain ⟨entry, -, rfl⟩ := List.mem_map.mp (mem_of_checkedOrder listed)
  have charged : unitsOf owner entry = some units := stated
  exact isAmount_unitsOf charged

omit [DecidableEq Owner] in
theorem isAmount_chargedAmount {key : Dimension} {amount : JsNumber}
    (counted
      : amount ∈ (checkedOrder latest (charges scheduler)).filterMap (chargedAmount key))
    : amount.IsAmount := by
  obtain ⟨charge, listed, stated⟩ := List.mem_filterMap.mp counted
  obtain ⟨entry, -, rfl⟩ := List.mem_map.mp (mem_of_checkedOrder listed)
  have charged : amountOf key entry = some amount := stated
  exact isAmount_amountOf charged

/-- Fewer charges within no less capacity stay bounded. -/
theorem LedgerBounded.fewer (bounded : LedgerBounded run)
    (fewer : (charges next).Sublist (charges run.scheduler))
    (capacity : NonShrinking run.scheduler.capacity next.capacity)
    : LedgerBounded { run with scheduler := next } where
  known entry listed := by
    have charged : chargeOf entry ∈ charges run.scheduler :=
      fewer.subset (List.mem_map_of_mem listed)
    obtain ⟨old, stored, same⟩ := List.mem_map.mp charged
    have owner : old.2.scope.owner = entry.2.scope.owner := congrArg (·.2.owner) same
    exact owner ▸ bounded.known old stored
  scopes owner job limit latest := by
    have before := bounded.scopes owner job limit latest
    refine Bool.eq_false_iff.mpr fun over_ => Bool.eq_false_iff.mp before ?_
    rw [scopedUnits_checkedOrder] at over_ ⊢
    refine JsNumber.ExceedsMore.exceeds ?_ over_
    refine JsNumber.ExceedsMore.sumFrom_sublist ?_ (fun _ => isAmount_chargedUnits) zero
    exact ((fewer.filter _).append (fewer.filter _)).filterMap _
  physical key := by
    have before := bounded.physical key
    refine Bool.eq_false_iff.mpr fun over_ => Bool.eq_false_iff.mp before ?_
    rw [totalResources_checkedOrder] at over_ ⊢
    refine JsNumber.ExceedsMore.exceeds ?_ (capacity key _ over_)
    refine JsNumber.ExceedsMore.sumFrom_sublist ?_ (fun _ => isAmount_chargedAmount) zero
    exact ((fewer.filter _).append (fewer.filter _)).filterMap _

omit [DecidableEq Owner] in
/-- What is admitted is first in the order it was checked in. -/
theorem checkedOrder_fresh {job : Job} {charge : Charge Owner}
    (fresh : ∀ other ∈ others, other.1 ≠ job)
    : checkedOrder (some job) (others ++ [(job, charge)]) = (job, charge) :: others := by
  have nothing : others.filter (fun entry => some entry.1 = some job) = [] := by
    refine List.filter_eq_nil_iff.mpr fun other listed => ?_
    simpa using fresh other listed
  have every : others.filter (fun entry => some entry.1 ≠ some job) = others := by
    refine List.filter_eq_self.mpr fun other listed => ?_
    simpa using fresh other listed
  rw [checkedOrder, List.filter_append, List.filter_append, nothing, every]
  simp

/-- Another owner's units are what they were. -/
theorem chargedUnits_other {owner : Owner} {job : Job} {charge : Charge Owner}
    (other : charge.owner ≠ owner)
    : (checkedOrder latest (others ++ [(job, charge)])).filterMap (chargedUnits owner)
      = (checkedOrder latest others).filterMap (chargedUnits owner) := by
  have nothing (keep : Job × Charge Owner → Bool)
      : ([(job, charge)].filter keep).filterMap (chargedUnits owner) = [] := by
    refine List.filterMap_eq_nil_iff.mpr fun listed member => ?_
    rw [List.mem_singleton.mp (List.mem_of_mem_filter member)]
    exact if_neg other
  simp only [checkedOrder, List.filter_append, List.filterMap_append, nothing, List.append_nil]

/-- What holds in every state of a run. -/
structure LedgerSound (run : LedgerRun Job Owner) : Prop where
  bounded : LedgerBounded run
  headroom : NonShrinking run.scheduler.admission run.scheduler.capacity

theorem NonShrinking.refl (capacity : HardwareResources) : NonShrinking capacity capacity :=
  fun _ _ over_ => over_

omit [DecidableEq Job] in
/-- The sums of a passed check, with what is admitted as a part of the ledger. -/
theorem not_exceeds_of_enough (job : Job) {capacity : HardwareResources}
    (same : entry.scope = scope)
    (enough : shortages capacity (some entry.work) scope scheduler.snapshot = [])
    : (JsNumber.sumFrom zero
          ((chargeOf (job, entry) :: charges scheduler).filterMap
            (chargedUnits scope.owner))).exceeds scope.limit = false
      ∧ ∀ key,
          (JsNumber.sumFrom zero
            ((chargeOf (job, entry) :: charges scheduler).filterMap (chargedAmount key))).exceeds
            (limitOf capacity key) = false := by
  have absent : ∀ shortage, shortage ∉ shortages capacity (some entry.work) scope
      scheduler.snapshot := by
    intro shortage
    rw [enough]
    exact List.not_mem_nil
  constructor
  · have fits := mt scope_mem_shortages.mpr (absent .scope)
    refine Bool.eq_false_iff.mpr fun over_ => fits ?_
    have own : chargedUnits scope.owner (chargeOf (job, entry)) = some entry.work.resourceUnits :=
      if_pos (congrArg SchedulingScope.owner same)
    rw [List.filterMap_cons_some own] at over_
    obtain ⟨value, exact_, -⟩ := entry.charged
    have first := JsNumber.ExceedsMore.nothing_add value?_zero
      (JsNumber.isFinite_iff.mpr ⟨value, exact_⟩)
    rw [charges, List.filterMap_map] at over_
    refine JsNumber.ExceedsMore.exceeds (first.sumFrom_start fun units counted => ?_) over_
    · obtain ⟨other, -, stated⟩ := List.mem_filterMap.mp counted
      obtain ⟨value, exact_, -⟩ := isAmount_unitsOf stated
      exact JsNumber.isFinite_iff.mpr ⟨value, exact_⟩
  · intro key
    have fits := mt resource_mem_shortages.mpr (absent (.resource key))
    refine Bool.eq_false_iff.mpr fun over_ => fits ?_
    rw [charges] at over_
    cases demand : entry.work.resources key with
    | none =>
        have nothing : chargedAmount key (chargeOf (job, entry)) = none :=
          Option.map_eq_none_iff.mpr demand
        rw [List.filterMap_cons_none nothing, List.filterMap_map] at over_
        rw [incomingAmount, Option.map_some, Option.getD_some, addResources, demand]
        exact over_
    | some amount =>
        have counted : chargedAmount key (chargeOf (job, entry))
            = some (nonNegativeFinite (some amount)) :=
          Option.map_eq_some_iff.mpr ⟨amount, demand, rfl⟩
        rw [List.filterMap_cons_some counted, List.filterMap_map] at over_
        rw [incomingAmount, Option.map_some, Option.getD_some, addResources, demand]
        exact over_

/-- An admission that passed its check. -/
theorem LedgerSound.admitted {job : Job} (sound : LedgerSound run)
    (fresh : run.scheduler.entries.get? job = none)
    (joined : next.snapshot = run.scheduler.snapshot ++ [(job, entry)]) (same : entry.scope = scope)
    (capacity : next.capacity = run.scheduler.capacity)
    (admission : next.admission = run.scheduler.admission)
    (enough
      : shortages run.scheduler.admission (some entry.work) scope run.scheduler.snapshot = [])
    : LedgerSound
        { scheduler := next
          latest := some job
          latestOf := fun owner =>
            if owner = scope.owner then some (job, scope.limit) else run.latestOf owner } := by
  have all
      : charges next = charges run.scheduler ++ [(job, (chargeOf (job, entry)).2)] := by
    rw [charges, joined, List.map_append]
    rfl
  have absent : ∀ other ∈ charges run.scheduler, other.1 ≠ job := by
    intro other listed equal
    obtain ⟨stored, member, rfl⟩ := List.mem_map.mp listed
    exact OrderedMap.get?_eq_none_iff.mp fresh (equal ▸ List.mem_map_of_mem member)
  obtain ⟨units, amounts⟩ := not_exceeds_of_enough job same enough
  refine ⟨⟨fun other listed => ?_, fun owner other limit latest => ?_, fun key => ?_⟩, ?_⟩
  · dsimp only at listed ⊢
    split
    next => exact Option.some_ne_none _
    next elsewhere =>
      rw [joined] at listed
      rcases List.mem_append.mp listed with old | new
      · exact sound.bounded.known other old
      · rw [List.mem_singleton.mp new] at elsewhere
        exact absurd (congrArg SchedulingScope.owner same) elsewhere
  · dsimp only at latest ⊢
    split at latest
    next here =>
      obtain ⟨rfl, rfl⟩ := Prod.mk.inj (Option.some.inj latest)
      rw [scopedUnits_checkedOrder, all, here, checkedOrder_fresh absent]
      exact units
    next elsewhere =>
      have before := sound.bounded.scopes owner other limit latest
      have others : (chargeOf (job, entry)).2.owner ≠ owner := fun equal =>
        elsewhere (equal.symm.trans (congrArg SchedulingScope.owner same))
      rw [scopedUnits_checkedOrder] at before ⊢
      rw [all, chargedUnits_other others]
      exact before
  · dsimp only
    rw [totalResources_checkedOrder, all, capacity]
    refine Bool.eq_false_iff.mpr fun over_ => Bool.eq_false_iff.mp (amounts key) ?_
    rw [checkedOrder_fresh absent] at over_
    exact sound.headroom key _ over_
  · dsimp only
    rw [capacity, admission]
    exact sound.headroom

/-- Events that add no charge. -/
theorem LedgerSound.fewer (sound : LedgerSound run)
    (fewer : (charges next).Sublist (charges run.scheduler))
    (capacity : next.capacity = run.scheduler.capacity)
    (admission : next.admission = run.scheduler.admission)
    : LedgerSound { run with scheduler := next } where
  bounded := by
    refine sound.bounded.fewer fewer ?_
    rw [capacity]
    exact .refl _
  headroom := by
    dsimp only
    rw [capacity, admission]
    exact sound.headroom

omit [DecidableEq Job] [DecidableEq Owner] in
/-- What a sample leaves of the capacity is its own headroom at least. -/
theorem headroom_updateResources (scheduler : SpeculationScheduler Job Owner)
    {sample : ExecutionResourceSnapshot} (reported : Reported sample)
    (before : NonShrinking scheduler.admission scheduler.capacity)
    : NonShrinking (scheduler.updateResources sample).admission
        (scheduler.updateResources sample).capacity := by
  rcases updateResources_cases scheduler sample with same | ⟨-, capacity, admission⟩
  · rw [same]
    exact before
  · rw [capacity, admission]
    refine headroom_within (fun key device idle => ?_) (hasPlace_totalResources _)
    have other : key ≠ .cpu := by
      rcases device with rfl | rfl <;> exact Dimension.noConfusion
    rw [SpeculationScheduler.sampledCapacity, if_neg other]
    exact reported.devices key device idle

theorem LedgerSound.step {event : LedgerEvent Job Owner} (sound : LedgerSound run)
    (allowed : Allowed run event)
    : LedgerSound (run.step event) := by
  cases event with
  | admitJob job forecasts scope role identity =>
      obtain ⟨execution, ordinary, fresh⟩ := allowed
      unfold LedgerRun.step
      dsimp only
      split
      next admitted =>
        obtain ⟨⟨entry, joined, same, work⟩, capacity, admission, enough⟩ :=
          ledger_admitted execution ordinary fresh admitted
        exact sound.admitted fresh joined same capacity admission (work ▸ enough)
      next refused =>
        obtain ⟨same, capacity, admission⟩ := ledger_refused refused
        refine sound.fewer ?_ capacity admission
        rw [charges, same]
        exact .refl _
  | refresh job forecasts =>
      refine sound.fewer ?_ ?_ ?_
      · rw [charges_refresh]
      · unfold SpeculationScheduler.refresh
        split <;> rfl
      · unfold SpeculationScheduler.refresh
        split <;> rfl
  | complete job => exact sound.fewer (List.filter_sublist.map chargeOf) rfl rfl
  | observe identity failed =>
      unfold LedgerRun.step SpeculationScheduler.observe
      dsimp only
      split
      next => exact sound.fewer (.refl _) rfl rfl
      next => exact sound.fewer (.refl _) rfl rfl
  | advance => exact sound.fewer (.refl _) rfl rfl
  | sample snapshot =>
      obtain ⟨reported, capacity⟩ := allowed
      refine ⟨sound.bounded.fewer ?_ capacity, headroom_updateResources _ reported sound.headroom⟩
      rcases updateResources_cases run.scheduler snapshot with same | ⟨same, -, -⟩
      · rw [same]
      · rw [charges, same]
        exact .refl _

/-- An empty ledger takes nothing. -/
theorem bounded_of_empty (nothing : scheduler.snapshot = [])
    (capacity : ∀ key, zero.exceeds (limitOf scheduler.capacity key) = false)
    : LedgerBounded { scheduler := scheduler } where
  known entry listed := by
    rw [nothing] at listed
    cases listed
  scopes owner job limit latest := by cases latest
  physical key := by
    dsimp only
    rw [nothing]
    exact capacity key

theorem exceeds_zero : zero.exceeds zero = false := by
  decide +kernel

theorem exceeds_positiveCount (count : Option JsNumber)
    : zero.exceeds (positiveCount count) = false := by
  have positive : zero.place < one.place := by decide +kernel
  have counted : (positiveCount count) = one ∨ one.place < (positiveCount count).place := by
    unfold positiveCount
    split
    next value =>
      split
      next finite =>
        have known := JsNumber.isFinite_floor finite
        rcases JsNumber.max_eq_or (JsNumber.HasPlace.of_isFinite isFinite_one).1
          (JsNumber.HasPlace.of_isFinite known).1 with same | ⟨same, less⟩
        · exact .inl same
        · rw [same]
          exact .inr less
      next => exact .inl rfl
    next => exact .inl rfl
  refine decide_eq_false fun over_ => ?_
  rcases counted with same | less
  · exact absurd over_.2.2 (not_lt_of_gt (same ▸ positive))
  · exact absurd over_.2.2 (not_lt_of_gt (positive.trans less))

theorem LedgerSound.start {initial : Option ExecutionResourceSnapshot}
    (reported : ∀ sample, initial = some sample → Reported sample)
    : LedgerSound (LedgerRun.start initial : LedgerRun Job Owner) := by
  have unmeasured (key : Dimension)
      : zero.exceeds (limitOf ({} : SpeculationScheduler Job Owner).capacity key) = false := by
    unfold limitOf
    dsimp only
    rw [Option.getD_none]
    split
    next => exact exceeds_zero
    next => exact exceeds_infinite zero
  cases initial with
  | none => exact ⟨bounded_of_empty rfl unmeasured, .refl _⟩
  | some sample =>
      have known := reported sample rfl
      have headroom := headroom_updateResources ({} : SpeculationScheduler Job Owner) known
        (.refl _)
      refine ⟨bounded_of_empty ?_ fun key => ?_, headroom⟩
      · rcases updateResources_cases ({} : SpeculationScheduler Job Owner) sample with same | same
        · rw [same]
          rfl
        · exact same.1
      · rcases updateResources_cases ({} : SpeculationScheduler Job Owner) sample with same | same
        · rw [same]
          exact unmeasured key
        · rw [same.2.1]
          unfold limitOf SpeculationScheduler.sampledCapacity
          split
          next =>
            rw [Option.getD_some]
            exact exceeds_positiveCount _
          next =>
            cases stated : sample.capacity key with
            | some capacity => exact known.nonneg key capacity stated
            | none => exact unmeasured key

/-- The ledger is bounded in every state of every run; new forecasts charge nothing anew, and
what is refused leaves the ledger as it is.
-/
theorem ledger_bounded (initial : Option ExecutionResourceSnapshot)
    (events : List (LedgerEvent Job Owner))
    (reported : ∀ sample, initial = some sample → Reported sample)
    (allowed : RunAllMeets LedgerRun.step Allowed (LedgerRun.start initial) events)
    : LedgerBounded (runAll LedgerRun.step (LedgerRun.start initial) events)
      ∧ (∀ (scheduler : SpeculationScheduler Job Owner) job forecasts,
          charges (scheduler.refresh job forecasts) = charges scheduler)
      ∧ ∀ (scheduler : SpeculationScheduler Job Owner) job forecasts scope role identity,
          (scheduler.admitJob job forecasts scope role identity).2 ≠ none →
            (scheduler.admitJob job forecasts scope role identity).1.snapshot
                = scheduler.snapshot
              ∧ (scheduler.admitJob job forecasts scope role identity).1.capacity
                = scheduler.capacity
              ∧ (scheduler.admitJob job forecasts scope role identity).1.admission
                = scheduler.admission := by
  refine ⟨?_, charges_refresh, fun _ _ _ _ _ _ refused => ledger_refused refused⟩
  refine LedgerSound.bounded ?_
  exact runAll_invariant_of_meets LedgerSound Allowed
    (fun _ _ sound allowed => sound.step allowed) (.start reported) allowed

end Invariant

-- Totals that are bounded only as they were added up

section Rounded

def taking (count : ℕ) : PredictionForecast :=
  { resourceDemand := some (.units (.ofRat (Rat.ofInt (Int.ofNat count)))) }

/-- From here on, not every integer is a number. -/
def wideScope : SchedulingScope Unit where
  owner := ()
  limit := .ofRat (Rat.ofInt (Int.ofNat 9007199254740992))
  scheduling := { failureThreshold := 2, failureRetryDecisions := 4 }

def admission (job : ℕ) (forecast : PredictionForecast) : LedgerEvent ℕ Unit :=
  .admitJob job [forecast] wideScope .execution none

/-- The third job fits: one on top of it is rounded away, and so is the other. -/
def roundedEvents : List (LedgerEvent ℕ Unit) :=
  [admission 0 (taking 1), admission 1 (taking 1), admission 2 (taking 9007199254740992)]

/-- The idle part of a device that is not reported otherwise. -/
def idleDevice : ExecutionResourceSnapshot where
  cpuCount := one
  available := fun key => if key = .gpu then some one else none

def deviceForecast : PredictionForecast :=
  { resourceDemand := some (.resources fun key => if key = .gpu then some one else none) }

def negativeCapacity : ExecutionResourceSnapshot where
  cpuCount := one
  capacity := fun key => if key = .memory then some (zero.sub one) else none

/-- In the ledger's own order the units of a scope may exceed its limit; and a sample that
makes little sense leaves a total above its capacity.
-/
theorem ledger_not_always_bounded
    : (¬ ∀ (initial : Option ExecutionResourceSnapshot) (events : List (LedgerEvent ℕ Unit)),
          RunAllMeets LedgerRun.step Allowed (LedgerRun.start initial) events →
          ∀ owner job limit,
            (runAll LedgerRun.step (LedgerRun.start initial) events).latestOf owner
                = some (job, limit) →
              (scopedUnits zero owner
                (runAll LedgerRun.step (LedgerRun.start initial) events).scheduler.snapshot).exceeds
                limit = false)
      ∧ ∀ key, key = .gpu ∨ key = .memory →
        ¬ ∀ (initial : Option ExecutionResourceSnapshot) (events : List (LedgerEvent ℕ Unit)),
          RunAllMeets LedgerRun.step Allowed (LedgerRun.start initial) events →
          (((totalResources noResources
            (runAll LedgerRun.step (LedgerRun.start initial) events).scheduler.snapshot)
            key).getD zero).exceeds
            (limitOf
              (runAll LedgerRun.step (LedgerRun.start initial) events).scheduler.capacity key)
            = false := by
  refine ⟨fun always => ?_, fun key device always => ?_⟩
  · have bounded := always none roundedEvents
      ⟨⟨by decide, by decide +kernel, by decide +kernel⟩,
        ⟨by decide, by decide +kernel, by decide +kernel⟩,
        ⟨by decide, by decide +kernel, by decide +kernel⟩, trivial⟩
      () 2 wideScope.limit (by decide +kernel)
    exact absurd bounded (by decide +kernel)
  · rcases device with rfl | rfl
    · have bounded := always (some idleDevice) [admission 0 deviceForecast]
        ⟨⟨by decide, by decide +kernel, by decide +kernel⟩, trivial⟩
      exact absurd bounded (by decide +kernel)
    · have bounded := always (some negativeCapacity) [] trivial
      exact absurd bounded (by decide +kernel)

/-- Two jobs, of which the first one is done. -/
theorem ledger_bounded_two
    : LedgerBounded
        (runAll LedgerRun.step (LedgerRun.start (some { cpuCount := one }))
          [admission 0 (taking 1), .complete 0, admission 1 (taking 1)]) := by
  refine (ledger_bounded _ _ (fun sample same => ?_) ?_).1
  · obtain rfl := Option.some.inj same
    exact ⟨fun _ _ stated => (Option.some_ne_none _ stated.symm).elim,
      fun _ _ stated => absurd rfl stated⟩
  · exact ⟨⟨by decide, by decide +kernel, by decide +kernel⟩, trivial,
      ⟨by decide, by decide +kernel, by decide +kernel⟩, trivial⟩

end Rounded

end SpeculativeAction.Scheduler
