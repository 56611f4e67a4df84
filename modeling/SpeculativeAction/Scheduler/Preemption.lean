import SpeculativeAction.Scheduler.Ledger

/-! Which work is preempted, and when preempting it was in vain: the victims are chosen one
after the other, and what was chosen stays chosen when no further victim can be found.
-/

namespace SpeculativeAction.Scheduler

open SpeculativeAction.Library

-- Shortages as sums

section Sums

variable {Job Owner : Type} [DecidableEq Owner]
variable {entries kept : List (Job × SchedulerEntry Owner)} {capacity : HardwareResources}
variable {incoming : Option ScheduledWork} {scope : SchedulingScope Owner}
  {entry : Job × SchedulerEntry Owner}

/-- What an entry adds to a dimension. -/
def amountOf (key : Dimension) (entry : Job × SchedulerEntry Owner) : Option JsNumber :=
  (entry.2.work.resources key).map fun amount => nonNegativeFinite (some amount)

/-- What an entry adds to the units of an owner. -/
def unitsOf (owner : Owner) (entry : Job × SchedulerEntry Owner) : Option JsNumber :=
  if entry.2.scope.owner = owner then some entry.2.work.resourceUnits else none

omit [DecidableEq Owner] in
theorem totalResources_eq_sum (first : HardwareResources)
    (entries : List (Job × SchedulerEntry Owner)) (key : Dimension)
    : ((totalResources first entries) key).getD zero
      = JsNumber.sumFrom ((first key).getD zero) (entries.filterMap (amountOf key)) := by
  induction entries generalizing first with
  | nil => rfl
  | cons entry rest ih =>
      rw [totalResources, List.foldl_cons, ← totalResources, ih]
      cases demand : entry.2.work.resources key with
      | none =>
          have nothing : amountOf key entry = none := by rw [amountOf, demand, Option.map_none]
          rw [List.filterMap_cons_none nothing, addResources, demand]
      | some amount =>
          have counted : amountOf key entry = some (nonNegativeFinite (some amount)) := by
            rw [amountOf, demand, Option.map_some]
          rw [List.filterMap_cons_some counted, addResources, demand, Option.getD_some]
          rfl

theorem scopedUnits_eq_sum (first : JsNumber) (owner : Owner)
    (entries : List (Job × SchedulerEntry Owner))
    : scopedUnits first owner entries
      = JsNumber.sumFrom first (entries.filterMap (unitsOf owner)) := by
  induction entries generalizing first with
  | nil => rfl
  | cons entry rest ih =>
      rw [scopedUnits, List.foldl_cons, ← scopedUnits, ih]
      by_cases same : entry.2.scope.owner = owner
      · have counted : unitsOf owner entry = some entry.2.work.resourceUnits := if_pos same
        rw [List.filterMap_cons_some counted, if_pos same]
        rfl
      · have nothing : unitsOf owner entry = none := if_neg same
        rw [List.filterMap_cons_none nothing, if_neg same]

theorem isAmount_nonNegativeFinite (value : JsNumber)
    : (nonNegativeFinite (some value)).IsAmount := by
  obtain ⟨exact_, finite⟩ :=
    JsNumber.isFinite_iff.mp (isFinite_nonNegativeFinite (some value))
  refine ⟨exact_, finite, ?_⟩
  have first : zero.value? = some 0 := by decide +kernel
  unfold nonNegativeFinite at finite
  dsimp only at finite
  split at finite
  next known =>
    obtain ⟨own, same⟩ := JsNumber.isFinite_iff.mp known
    rcases JsNumber.max_eq_or (JsNumber.hasPlace_of_value? first).1
      (JsNumber.hasPlace_of_value? same).1 with equal | ⟨equal, less⟩
    · rw [equal, first] at finite
      exact (Option.some.inj finite).le
    · rw [equal, same] at finite
      rw [JsNumber.place_of_value? first, JsNumber.place_of_value? same] at less
      have above : (0 : ℚ) < own := by exact_mod_cast less
      exact (Option.some.inj finite) ▸ above.le
  next =>
    rw [first] at finite
    exact (Option.some.inj finite).le

/-- What is not above zero counts as nothing. -/
theorem nonNegativeFinite_of_nothing {value : JsNumber} (nothing : value.exceeds zero = false)
    : (nonNegativeFinite (some value)).value? = some 0 := by
  have first : zero.value? = some 0 := by decide +kernel
  unfold nonNegativeFinite
  dsimp only
  split
  next known =>
    obtain ⟨own, same⟩ := JsNumber.isFinite_iff.mp known
    have known' := (JsNumber.hasPlace_of_value? same).1
    rcases JsNumber.max_eq_or (JsNumber.hasPlace_of_value? first).1 known' with equal | ⟨_, less⟩
    · rw [equal, first]
    · have above := decide_eq_true
        (p := value ≠ .nan ∧ zero ≠ .nan ∧ zero.place < value.place)
        ⟨known', (JsNumber.hasPlace_of_value? first).1, less⟩
      exact absurd (nothing.symm.trans above) Bool.false_ne_true
  next => exact first

omit [DecidableEq Owner] in
theorem isAmount_amountOf {key : Dimension} {amount : JsNumber}
    (counted : amountOf key entry = some amount)
    : amount.IsAmount := by
  obtain ⟨demand, -, rfl⟩ := Option.map_eq_some_iff.mp counted
  exact isAmount_nonNegativeFinite demand

theorem isAmount_unitsOf {owner : Owner} {units : JsNumber}
    (counted : unitsOf owner entry = some units)
    : units.IsAmount := by
  unfold unitsOf at counted
  split at counted
  next => exact Option.some.inj counted ▸ entry.2.charged
  next => cases counted

/-- What the incoming work alone takes of a dimension. -/
def incomingAmount (incoming : Option ScheduledWork) (key : Dimension) : JsNumber :=
  ((addResources noResources ((incoming.map (·.resources)).getD noResources)) key).getD zero

def incomingUnits (incoming : Option ScheduledWork) : JsNumber :=
  (incoming.map (·.resourceUnits)).getD zero

theorem scope_mem_shortages
    : .scope ∈ shortages capacity incoming scope entries
      ↔ (JsNumber.sumFrom (incomingUnits incoming)
          (entries.filterMap (unitsOf scope.owner))).exceeds scope.limit = true := by
  rw [← scopedUnits_eq_sum, shortages, List.mem_append]
  constructor
  · intro listed
    rcases listed with listed | listed
    · split at listed
      next over_ => exact over_
      next => cases listed
    · obtain ⟨_, _, same⟩ := List.mem_map.mp listed
      cases same
  · intro over_
    have over' : (scopedUnits ((incoming.map (·.resourceUnits)).getD zero) scope.owner
        entries).exceeds scope.limit = true := over_
    rw [if_pos over']
    exact .inl (List.mem_singleton_self _)

theorem resource_mem_shortages {key : Dimension}
    : .resource key ∈ shortages capacity incoming scope entries
      ↔ (JsNumber.sumFrom (incomingAmount incoming key)
          (entries.filterMap (amountOf key))).exceeds (limitOf capacity key) = true := by
  rw [incomingAmount, ← totalResources_eq_sum, shortages, List.mem_append]
  have every : key ∈ dimensions := by cases key <;> decide
  constructor
  · intro listed
    rcases listed with listed | listed
    · split at listed
      · cases List.mem_singleton.mp listed
      · cases listed
    · obtain ⟨other, short, same⟩ := List.mem_map.mp listed
      cases same
      exact (List.mem_filter.mp short).2
  · intro over_
    exact .inr (List.mem_map.mpr ⟨key, List.mem_filter.mpr ⟨every, over_⟩, rfl⟩)

/-- Fewer entries lack no more. -/
theorem shortages_sublist (fewer : kept.Sublist entries) {shortage : Shortage}
    (short : shortage ∈ shortages capacity incoming scope kept)
    : shortage ∈ shortages capacity incoming scope entries := by
  cases shortage with
  | scope =>
      refine scope_mem_shortages.mpr ?_
      refine JsNumber.ExceedsMore.exceeds ?_ (scope_mem_shortages.mp short)
      refine JsNumber.ExceedsMore.sumFrom_sublist (fewer.filterMap _) (fun units listed => ?_) _
      obtain ⟨entry, -, counted⟩ := List.mem_filterMap.mp listed
      exact isAmount_unitsOf counted
  | resource key =>
      refine resource_mem_shortages.mpr ?_
      refine JsNumber.ExceedsMore.exceeds ?_ (resource_mem_shortages.mp short)
      refine JsNumber.ExceedsMore.sumFrom_sublist (fewer.filterMap _) (fun amount listed => ?_) _
      obtain ⟨entry, -, counted⟩ := List.mem_filterMap.mp listed
      exact isAmount_amountOf counted

theorem shortages_eq_nil_of_sublist (fewer : kept.Sublist entries)
    (enough : shortages capacity incoming scope entries = [])
    : shortages capacity incoming scope kept = [] := by
  refine List.eq_nil_iff_forall_not_mem.mpr fun shortage short => ?_
  have more := shortages_sublist fewer short
  rw [enough] at more
  cases more

/-- Without entries that hold no part of a shortage there is still that shortage. -/
theorem shortages_filter {keep : Job × SchedulerEntry Owner → Bool} {shortage : Shortage}
    (short : shortage ∈ shortages capacity incoming scope entries)
    (idle
      : ∀ entry ∈ entries, keep entry = false →
          SpeculationScheduler.relieves scope [shortage] entry = false)
    : shortage ∈ shortages capacity incoming scope (entries.filter keep) := by
  cases shortage with
  | scope =>
      refine scope_mem_shortages.mpr ?_
      refine JsNumber.ExceedsMore.exceeds ?_ (scope_mem_shortages.mp short)
      refine JsNumber.ExceedsMore.sumFrom_filter ?_ (fun entry listed dropped units counted => ?_) _
      · intro entry _ units counted
        obtain ⟨value, exact_, -⟩ := isAmount_unitsOf counted
        exact JsNumber.isFinite_iff.mpr ⟨value, exact_⟩
      · -- an entry of the scope would relieve it
        have other := idle entry listed dropped
        unfold unitsOf at counted
        split at counted
        next same => simp [SpeculationScheduler.relieves, same] at other
        next => cases counted
  | resource key =>
      refine resource_mem_shortages.mpr ?_
      refine JsNumber.ExceedsMore.exceeds ?_ (resource_mem_shortages.mp short)
      refine JsNumber.ExceedsMore.sumFrom_filter ?_ (fun entry listed dropped amount counted => ?_) _
      · intro entry _ amount counted
        obtain ⟨value, exact_, -⟩ := isAmount_amountOf counted
        exact JsNumber.isFinite_iff.mpr ⟨value, exact_⟩
      · have other := idle entry listed dropped
        obtain ⟨demand, stated, rfl⟩ := Option.map_eq_some_iff.mp counted
        have nothing : demand.exceeds zero = false := by
          simpa [SpeculationScheduler.relieves, stated] using other
        exact nonNegativeFinite_of_nothing nothing

end Sums

-- The choice of victims

section Victims

variable {Job Owner : Type} [DecidableEq Job] [DecidableEq Owner]
variable {scheduler : SpeculationScheduler Job Owner}
variable {host : HostSort (Job × SchedulerEntry Owner)} {scope : SchedulingScope Owner}
variable {incoming : Option ScheduledWork} {canPreempt draining : Job → Bool}
variable {remaining : List (Job × SchedulerEntry Owner)}

/-- Without some jobs. -/
def without (jobs : List Job) (entries : List (Job × SchedulerEntry Owner))
    : List (Job × SchedulerEntry Owner) :=
  entries.filter fun entry => entry.1 ∉ jobs

/-- The entries that a next victim is chosen from. -/
def candidates (scheduler : SpeculationScheduler Job Owner) (scope : SchedulingScope Owner)
    (incoming : Option ScheduledWork) (canPreempt : Job → Bool)
    (entries : List (Job × SchedulerEntry Owner))
    : List (Job × SchedulerEntry Owner) :=
  entries.filter fun entry =>
    scheduler.preemptible incoming canPreempt entry
      && SpeculationScheduler.relieves scope (scheduler.missing incoming scope entries) entry

/-- What a choice of victims among some entries has done. -/
structure Chosen (scheduler : SpeculationScheduler Job Owner) (scope : SchedulingScope Owner)
    (incoming : Option ScheduledWork) (canPreempt : Job → Bool)
    (remaining : List (Job × SchedulerEntry Owner)) (victims : List Job)
    : Prop where
  distinct : victims.Nodup
  preemptible
    : ∀ victim ∈ victims, ∃ entry ∈ remaining,
        entry.1 = victim ∧ scheduler.preemptible incoming canPreempt entry = true
  settled
    : scheduler.missing incoming scope (without victims remaining) = []
      ∨ candidates scheduler scope incoming canPreempt (without victims remaining) = []
  some_iff
    : victims ≠ []
      ↔ scheduler.missing incoming scope remaining ≠ []
        ∧ candidates scheduler scope incoming canPreempt remaining ≠ []

omit [DecidableEq Owner] in
theorem without_nil (entries : List (Job × SchedulerEntry Owner)) : without [] entries = entries := by
  simp [without]

omit [DecidableEq Owner] in
theorem without_cons (job : Job) (jobs : List Job) (entries : List (Job × SchedulerEntry Owner))
    : without (job :: jobs) entries
      = without jobs (entries.filter fun entry => entry.1 ≠ job) := by
  simp only [without, List.filter_filter, List.mem_cons, not_or]
  refine List.filter_congr fun entry _ => ?_
  simp [Bool.and_comm]

/-- Each round removes one entry, so as many rounds as entries are enough. -/
theorem selectVictims_chosen (fuel : ℕ) (enough : remaining.length ≤ fuel)
    : Chosen scheduler scope incoming canPreempt remaining
        (scheduler.selectVictims host scope incoming canPreempt fuel remaining) := by
  induction fuel generalizing remaining with
  | zero =>
      obtain rfl := List.length_eq_zero_iff.mp (Nat.le_zero.mp enough)
      exact ⟨List.nodup_nil, by simp [SpeculationScheduler.selectVictims], .inr rfl,
        by simp [SpeculationScheduler.selectVictims, candidates]⟩
  | succ fuel ih =>
      rw [SpeculationScheduler.selectVictims]
      dsimp only
      by_cases short : scheduler.missing incoming scope remaining = []
      · rw [if_pos short]
        refine ⟨List.nodup_nil, by simp, .inl (by rwa [without_nil]), ?_⟩
        simp [short]
      · rw [if_neg short]
        have sorted := host.perm scheduler.victimCompare
          (candidates scheduler scope incoming canPreempt remaining)
        split
        next found =>
          have none_ : candidates scheduler scope incoming canPreempt remaining = [] := by
            rw [List.head?_eq_none_iff] at found
            exact (found ▸ sorted).symm.eq_nil
          refine ⟨List.nodup_nil, by simp, .inr (by rwa [without_nil]), ?_⟩
          simp [none_]
        next victim found =>
          have candidate := sorted.mem_iff.mp (List.mem_of_mem_head? found)
          obtain ⟨listed, allowed⟩ := List.mem_filter.mp candidate
          have shorter
              : (remaining.filter fun entry => entry.1 ≠ victim.1).length ≤ fuel := by
            have fewer : (remaining.filter fun entry => entry.1 ≠ victim.1).length
                < remaining.length :=
              List.length_filter_lt_length_iff_exists.mpr ⟨victim, listed, by simp⟩
            omega
          have rest := ih shorter
          refine ⟨List.nodup_cons.mpr ⟨fun again => ?_, rest.distinct⟩, ?_, ?_, ?_⟩
          · obtain ⟨entry, member, same, -⟩ := rest.preemptible _ again
            have other := (List.mem_filter.mp member).2
            exact of_decide_eq_true other same
          · intro job member
            rcases List.mem_cons.mp member with rfl | later
            · exact ⟨victim, listed, rfl, (Bool.and_eq_true_iff.mp allowed).1⟩
            · obtain ⟨entry, member, same, allowed⟩ := rest.preemptible job later
              exact ⟨entry, List.mem_of_mem_filter member, same, allowed⟩
          · rw [without_cons]
            exact rest.settled
          · refine iff_of_true (List.cons_ne_nil _ _) ⟨short, fun none_ => ?_⟩
            rw [none_] at candidate
            cases candidate

/-- The entries that are not draining already. -/
def active (scheduler : SpeculationScheduler Job Owner) (draining : Job → Bool)
    : List (Job × SchedulerEntry Owner) :=
  scheduler.snapshot.filter fun entry => !draining entry.1

/-- What preemption promises: a victim may be preempted and is not draining, and for work that
is no Actor demand some victims are enough victims.
-/
structure PreemptionKept (scheduler : SpeculationScheduler Job Owner)
    (scope : SchedulingScope Owner) (incoming : Option ScheduledWork)
    (canPreempt draining : Job → Bool) (victims : List Job)
    : Prop where
  distinct : victims.Nodup
  eligible
    : ∀ victim ∈ victims, ∃ entry, (victim, entry) ∈ scheduler.snapshot
        ∧ canPreempt victim = true
        ∧ draining victim = false
        ∧ entry.role ≠ .actor
        ∧ entry.work.actorDemand = false
  enough
    : ∀ work, incoming = some work → work.actorDemand = false → victims ≠ [] →
        scheduler.missing incoming scope (without victims (active scheduler draining)) = []

/-- The incoming work fits alone, and some entry that may be preempted for it holds a part of
what is short, but a shortage remains when all such entries are gone.
-/
structure PreemptedInVain (scheduler : SpeculationScheduler Job Owner)
    (scope : SchedulingScope Owner) (incoming : Option ScheduledWork)
    (canPreempt draining : Job → Bool)
    : Prop where
  ordinary : ∃ work, incoming = some work ∧ work.actorDemand = false
  fits : scheduler.missing incoming scope [] = []
  held : candidates scheduler scope incoming canPreempt (active scheduler draining) ≠ []
  short
    : scheduler.missing incoming scope
        ((active scheduler draining).filter fun entry =>
          !scheduler.preemptible incoming canPreempt entry)
      ≠ []

theorem physical_eq_false_iff
    : SpeculationScheduler.physical incoming = false
      ↔ ∃ work, incoming = some work ∧ work.actorDemand = false := by
  cases incoming with
  | none => simp [SpeculationScheduler.physical]
  | some work => simp [SpeculationScheduler.physical]

/-- Victims are preemptible, so what may not be preempted is never removed. -/
theorem filter_without {victims : List Job} (distinct : (remaining.map Prod.fst).Nodup)
    (chosen : Chosen scheduler scope incoming canPreempt remaining victims)
    : (without victims remaining).filter
        (fun entry => !scheduler.preemptible incoming canPreempt entry)
      = remaining.filter fun entry => !scheduler.preemptible incoming canPreempt entry := by
  rw [without, List.filter_filter]
  refine List.filter_congr fun entry listed => ?_
  by_cases gone : entry.1 ∈ victims
  · obtain ⟨other, member, same, allowed⟩ := chosen.preemptible entry.1 gone
    have equal : other = entry := List.inj_on_of_nodup_map distinct member listed same
    rw [← equal, allowed]
    rfl
  · simp [gone]

omit [DecidableEq Job] in
/-- Once no candidate is left, a shortage outlasts everything that may be preempted. -/
theorem short_of_no_candidates {entries : List (Job × SchedulerEntry Owner)}
    (short : scheduler.missing incoming scope entries ≠ [])
    (none_ : candidates scheduler scope incoming canPreempt entries = [])
    : scheduler.missing incoming scope
        (entries.filter fun entry => !scheduler.preemptible incoming canPreempt entry)
      ≠ [] := by
  obtain ⟨shortage, listed⟩ := List.exists_mem_of_ne_nil _ short
  refine List.ne_nil_of_mem (shortages_filter listed fun entry member dropped => ?_)
  have allowed : scheduler.preemptible incoming canPreempt entry = true := by simpa using dropped
  by_contra relief
  have candidate : entry ∈ candidates scheduler scope incoming canPreempt entries := by
    refine List.mem_filter.mpr ⟨member, ?_⟩
    rw [allowed, Bool.true_and, SpeculationScheduler.relieves, List.any_eq_true]
    refine ⟨shortage, listed, ?_⟩
    simpa [SpeculationScheduler.relieves] using relief
  rw [none_] at candidate
  cases candidate

omit [DecidableEq Job] [DecidableEq Owner] in
theorem distinct_active (scheduler : SpeculationScheduler Job Owner) (draining : Job → Bool)
    : ((active scheduler draining).map Prod.fst).Nodup :=
  (List.filter_sublist.map Prod.fst).nodup scheduler.entries.distinct

theorem preemptFor_chosen
    (fits
      : ¬ (SpeculationScheduler.physical incoming = false
        ∧ scheduler.missing incoming scope [] ≠ []))
    : Chosen scheduler scope incoming canPreempt (active scheduler draining)
        (scheduler.preemptFor host scope incoming canPreempt draining) := by
  unfold SpeculationScheduler.preemptFor
  dsimp only
  rw [if_neg fits]
  exact selectVictims_chosen _ (Nat.le_refl _)

/-- Preemption keeps its promise exactly when it is not in vain. -/
theorem preemptFor_kept_iff (scheduler : SpeculationScheduler Job Owner)
    (host : HostSort (Job × SchedulerEntry Owner)) (scope : SchedulingScope Owner)
    (incoming : Option ScheduledWork) (canPreempt draining : Job → Bool)
    : PreemptionKept scheduler scope incoming canPreempt draining
        (scheduler.preemptFor host scope incoming canPreempt draining)
      ↔ ¬ PreemptedInVain scheduler scope incoming canPreempt draining := by
  by_cases guarded : SpeculationScheduler.physical incoming = false
      ∧ scheduler.missing incoming scope [] ≠ []
  · have nothing : scheduler.preemptFor host scope incoming canPreempt draining = [] :=
      if_pos guarded
    rw [nothing]
    refine iff_of_true ⟨List.nodup_nil, by simp, fun _ _ _ some_ => absurd rfl some_⟩ ?_
    intro vain
    exact guarded.2 vain.fits
  · have chosen : Chosen scheduler scope incoming canPreempt (active scheduler draining)
        (scheduler.preemptFor host scope incoming canPreempt draining) :=
      preemptFor_chosen guarded
    have unpreempted := filter_without (distinct_active scheduler draining) chosen
    constructor
    · intro kept vain
      obtain ⟨work, is, ordinary⟩ := vain.ordinary
      have lacking : scheduler.missing incoming scope (active scheduler draining) ≠ [] := by
        intro enough
        exact vain.short (shortages_eq_nil_of_sublist List.filter_sublist enough)
      have some_ := chosen.some_iff.mpr ⟨lacking, vain.held⟩
      have enough := kept.enough work is ordinary some_
      apply vain.short
      rw [← unpreempted]
      exact shortages_eq_nil_of_sublist List.filter_sublist enough
    · intro useful
      refine ⟨chosen.distinct, fun victim member => ?_, fun work is ordinary some_ => ?_⟩
      · obtain ⟨⟨job, entry⟩, listed, rfl, allowed⟩ := chosen.preemptible victim member
        obtain ⟨stored, running⟩ := List.mem_filter.mp listed
        simp only [SpeculationScheduler.preemptible, Bool.and_eq_true, decide_eq_true_eq,
          Bool.not_eq_true'] at allowed
        exact ⟨entry, stored, allowed.1.2, by simpa using running, allowed.1.1.1, allowed.1.1.2⟩
      · by_contra lacking
        have none_ := chosen.settled.resolve_left lacking
        obtain ⟨_, held⟩ := chosen.some_iff.mp some_
        have physical := physical_eq_false_iff.mpr ⟨work, is, ordinary⟩
        refine useful ⟨⟨work, is, ordinary⟩, ?_, held, ?_⟩
        · by_contra alone
          exact guarded ⟨physical, alone⟩
        · rw [← unpreempted]
          exact short_of_no_candidates lacking none_

end Victims

-- A job that is cancelled for nothing

section Vain

def insertionHost (α : Type) : HostSort α where
  sort compare := List.insertionSort fun left right => (compare left right).ordering ≠ .gt
  perm _ items := List.perm_insertionSort _ items

def oneScope : SchedulingScope Unit where
  owner := ()
  limit := .ofRat (Rat.ofInt (Int.ofNat 2))
  scheduling := { failureThreshold := 2, failureRetryDecisions := 4 }

def backgroundForecast : PredictionForecast := { background := true }

def wideForecast : PredictionForecast :=
  { resourceDemand := some (.units (.ofRat (Rat.ofInt (Int.ofNat 2)))) }

/-- Two background jobs fill the scope; only job 0 may be preempted. -/
def filledScheduler : SpeculationScheduler ℕ Unit :=
  let first :=
    ({} : SpeculationScheduler ℕ Unit).admitJob 0 [backgroundForecast] oneScope .execution none
  (first.1.admitJob 1 [backgroundForecast] oneScope .execution none).1

/-- Work for the whole scope preempts one of the jobs, though the other one stays. -/
theorem preemptFor_filledScheduler
    : filledScheduler.preemptFor (insertionHost _) oneScope (some (evaluate [wideForecast]))
          (fun job => decide (job = 0)) (fun _ => false)
        = [0]
      ∧ filledScheduler.missing (some (evaluate [wideForecast])) oneScope
          (without [0] (active filledScheduler fun _ => false))
        ≠ [] := by
  decide +kernel

theorem preemptFor_not_always_kept
    : ¬ ∀ (scheduler : SpeculationScheduler ℕ Unit)
        (host : HostSort (ℕ × SchedulerEntry Unit)) (scope : SchedulingScope Unit)
        (incoming : Option ScheduledWork) (canPreempt draining : ℕ → Bool),
        PreemptionKept scheduler scope incoming canPreempt draining
          (scheduler.preemptFor host scope incoming canPreempt draining) := by
  intro always
  have kept := always filledScheduler (insertionHost _) oneScope
    (some (evaluate [wideForecast])) (fun job => decide (job = 0)) fun _ => false
  obtain ⟨chosen, short⟩ := preemptFor_filledScheduler
  rw [chosen] at kept
  exact short (kept.enough _ rfl (by decide +kernel) (List.cons_ne_nil _ _))

end Vain

end SpeculativeAction.Scheduler
