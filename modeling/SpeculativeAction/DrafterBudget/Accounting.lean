import Mathlib.Algebra.BigOperators.Group.List.Basic
import Mathlib.Tactic.Linarith
import SpeculativeAction.DrafterBudget.Model
import SpeculativeAction.Library.TransitionSystem

/-! The counters of every task are the account of the requests it admitted, whatever the
order in which requests start and end and tasks finish.
-/

namespace SpeculativeAction.DrafterBudget

open SpeculativeAction.Library

section Book

/-- What an outstanding request still holds. -/
def Request.held (request : Request) : ℚ :=
  if request.outcome = .outstanding then request.reservation else 0

/-- What an ended request was charged for by its report. -/
def Request.reported (request : Request) : ℚ :=
  match request.outcome with
  | .reported tokens => tokens
  | _ => 0

/-- What an ended request without a report stays charged for. -/
def Request.unreported (request : Request) : ℚ :=
  if request.outcome = .unreported then request.reservation else 0

/-- One measure added up over the requests of a task object. -/
def tally (measure : Request → ℚ) (state : ℕ) (requests : List Request) : ℚ :=
  (requests.map fun request => if request.state = state then measure request else 0).sum

variable {measure : Request → ℚ} {state index : ℕ} {requests : List Request} {request : Request}

/-- A new request counts for its own task object only. -/
theorem tally_append
    : tally measure state (requests ++ [request])
      = tally measure state requests + if request.state = state then measure request else 0 := by
  simp [tally]

theorem tally_of_other (others : ∀ request ∈ requests, request.state ≠ state)
    : tally measure state requests = 0 := by
  refine List.sum_eq_zero fun amount member => ?_
  obtain ⟨request, listed, rfl⟩ := List.mem_map.mp member
  exact if_neg (others request listed)

variable (measure state) in
/-- Changing one request in place changes the sum of its task object by the difference. -/
theorem tally_set (next : Request) (here : requests[index]? = some request)
    (same : next.state = request.state)
    : tally measure state (requests.set index next)
      = tally measure state requests
        + if request.state = state then measure next - measure request else 0 := by
  obtain ⟨inside, rfl⟩ := List.getElem?_eq_some_iff.mp here
  rw [tally, List.map_set, List.sum_set', dif_pos (by simpa using inside), same]
  simp only [List.getElem_map]
  by_cases mine : requests[index].state = state
  · simp only [if_pos mine, tally]
    ring
  · simp only [if_neg mine, tally]
    ring

/-- The task objects of the requests stay when one changes in place. -/
theorem states_set (next : Request) (here : requests[index]? = some request)
    (same : next.state = request.state)
    : (requests.set index next).map Request.state = requests.map Request.state := by
  obtain ⟨inside, rfl⟩ := List.getElem?_eq_some_iff.mp here
  rw [List.map_set, same]
  exact List.ext_getElem (by simp) fun position first second => by
    rw [List.getElem_set]
    split
    · rename_i found
      simp [found]
    · rfl

end Book

section Invariant

variable {request : Request}

/-- The counters of one task object are those of its requests. -/
structure CountersOf (requests : List Request) (state : ℕ) (counters : TaskState) : Prop where
  admitted : counters.requests = (requests.map Request.state).count state
  reported : counters.reportedTokens = tally Request.reported state requests
  unreported : counters.unreportedTokens = tally Request.unreported state requests
  reserved : counters.reservedTokens = tally Request.held state requests

/-- Requests stand between the same calls of `finishTask` when one task object admitted
them; the current object takes those after the last call.
-/
structure TasksOf (system : System) : Prop where
  current_lt : system.budget.state < system.budget.states.size
  state_lt : ∀ request ∈ system.requests, request.state < system.budget.states.size
  finishes_le : ∀ request ∈ system.requests, request.finishes ≤ system.finishes
  finishes_lt
    : system.budget.finished = true
      → ∀ request ∈ system.requests, request.finishes < system.finishes
  current
    : system.budget.finished = false
      → ∀ request ∈ system.requests,
          request.finishes = system.finishes ↔ request.state = system.budget.state
  same
    : ∀ first ∈ system.requests,
        ∀ second ∈ system.requests,
          first.finishes = second.finishes ↔ first.state = second.state

/-- Every task object is accounted for and within its number of requests. -/
structure Booked (policy : BudgetPolicy) (system : System) : Prop where
  counters : ∀ state, CountersOf system.requests state (system.budget.states.read state)
  limited : ∀ state, (system.budget.states.read state).requests ≤ policy.drafterTaskMaxRequests
  tasks : TasksOf system

variable {policy : BudgetPolicy} {system : System}

/-- A fresh task object has no requests yet. -/
theorem Booked.rollOver (booked : Booked policy system)
    : Booked policy { system with budget := system.budget.rollOver } := by
  unfold Budget.rollOver
  split
  · rename_i finished
    have newer : ∀ request ∈ system.requests, request.state ≠ system.budget.states.size :=
      fun request listed => (booked.tasks.state_lt request listed).ne
    refine ⟨fun state => ?_, fun state => ?_, ?_⟩
    · dsimp only
      rw [Heap.read_alloc]
      split
      · rename_i here
        subst here
        exact {
          admitted := by
            refine (List.count_eq_zero.mpr fun member => ?_).symm
            obtain ⟨request, listed, same⟩ := List.mem_map.mp member
            exact newer request listed same
          reported := (tally_of_other newer).symm
          unreported := (tally_of_other newer).symm
          reserved := (tally_of_other newer).symm
        }
      · exact booked.counters state
    · dsimp only
      rw [Heap.read_alloc]
      split
      · exact Nat.zero_le _
      · exact booked.limited state
    · exact {
        current_lt := Nat.lt_succ_self _
        state_lt := fun request listed =>
          (booked.tasks.state_lt request listed).trans (Nat.lt_succ_self _)
        finishes_le := booked.tasks.finishes_le
        finishes_lt := fun impossible => nomatch impossible
        current := fun _ request listed =>
          iff_of_false (booked.tasks.finishes_lt finished request listed).ne
            (newer request listed)
        same := booked.tasks.same
      }
  · exact booked

theorem rollOver_finished (budget : Budget) : budget.rollOver.finished = false := by
  unfold Budget.rollOver
  split
  · rfl
  · rename_i running
    exact Bool.eq_false_iff.mpr running

/-- Task objects may change in place as long as requests and counters change alike. -/
theorem Booked.modify (booked : Booked policy system) {state : ℕ} {change : TaskState → TaskState}
    {requests : List Request}
    (counters
      : ∀ other, CountersOf requests other
          ((system.budget.states.modify state change).read other))
    (limited : (change (system.budget.states.read state)).requests ≤ policy.drafterTaskMaxRequests)
    (tasks
      : TasksOf
          { system with budget := system.budget.modifyState state change, requests := requests })
    : Booked policy
        { system with budget := system.budget.modifyState state change, requests := requests } := by
  refine ⟨counters, fun other => ?_, tasks⟩
  show ((system.budget.states.modify state change).read other).requests ≤ _
  rw [Heap.read_modify]
  split
  · rename_i here
    rw [here]
    exact limited
  · exact booked.limited other

/-- Counting a skipped request touches no other counter. -/
theorem Booked.skip (booked : Booked policy system)
    : Booked policy { system with budget := system.budget.skip } := by
  refine booked.modify (fun other => ?_) (booked.limited _) ?_
  · rw [Heap.read_modify]
    have counters := booked.counters other
    split
    · exact ⟨counters.admitted, counters.reported, counters.unreported, counters.reserved⟩
    · exact counters
  · have tasks := booked.tasks
    exact ⟨tasks.current_lt, tasks.state_lt, tasks.finishes_le, tasks.finishes_lt, tasks.current,
      tasks.same⟩

/-- A task object that is looked at for one more request, whatever the answer. -/
theorem Booked.available (booked : Booked policy system)
    : Booked policy { system with budget := (system.budget.available policy).1 } := by
  unfold Budget.available
  dsimp only
  split
  · exact booked.rollOver
  · exact booked.rollOver.skip

/-- One more request of the current task object, with its reservation. -/
theorem Booked.admit (booked : Booked policy system) (running : system.budget.finished = false)
    (room : system.budget.current.requests < policy.drafterTaskMaxRequests) (reservation : ℚ)
    : Booked policy
        {
          system with
          budget := system.budget.modifyState system.budget.state fun state =>
            {
              state with
              requests := state.requests + 1
              reservedTokens := state.reservedTokens + reservation
            }
          requests :=
            system.requests
              ++ [{
                state := system.budget.state
                reservation := reservation
                finishes := system.finishes
              }]
        } := by
  have tasks := booked.tasks
  have current := tasks.current running
  refine booked.modify (fun other => ?_) room {
    current_lt := tasks.current_lt
    state_lt := ?_
    finishes_le := ?_
    finishes_lt := fun finished => nomatch running.symm.trans finished
    current := fun _ request listed => ?_
    same := ?_
  }
  · rw [Heap.read_modify]
    have counters := booked.counters other
    split
    · rename_i here
      subst here
      constructor
      · simp [counters.admitted]
      · simp [tally_append, counters.reported, Request.reported]
      · simp [tally_append, counters.unreported, Request.unreported]
      · simp [tally_append, counters.reserved, Request.held]
    · rename_i elsewhere
      have different : ¬ system.budget.state = other := fun same => elsewhere same.symm
      constructor
      · simp [counters.admitted, different]
      · simp [tally_append, counters.reported, different]
      · simp [tally_append, counters.unreported, different]
      · simp [tally_append, counters.reserved, different]
  · exact List.forall_mem_append.mpr
      ⟨tasks.state_lt, List.forall_mem_singleton.mpr tasks.current_lt⟩
  · exact List.forall_mem_append.mpr
      ⟨tasks.finishes_le, List.forall_mem_singleton.mpr le_rfl⟩
  · rcases List.mem_append.mp listed with old | new
    · exact current request old
    · obtain rfl := List.mem_singleton.mp new
      exact iff_of_true rfl rfl
  · intro first listed second listed'
    rcases List.mem_append.mp listed with old | new <;>
      rcases List.mem_append.mp listed' with old' | new'
    · exact tasks.same first old second old'
    · rw [List.mem_singleton.mp new']
      exact current first old
    · rw [List.mem_singleton.mp new, eq_comm, current second old', eq_comm]
    · rw [List.mem_singleton.mp new, List.mem_singleton.mp new']
      exact iff_of_true rfl rfl

/-- An outstanding request is listed where it is looked up. -/
theorem getElem?_of_outstanding {index : ℕ}
    (found : Request.outstanding? system.requests index = some request)
    : system.requests[index]? = some request ∧ request.outcome = .outstanding := by
  have filtered := Option.filter_eq_some_iff.mp found
  simpa using filtered

theorem requests_settled (state : TaskState) (reservation : ℚ) (completion : Budget.Completion)
    : (Budget.settled state reservation completion).requests = state.requests := by
  unfold Budget.settled
  split <;> rfl

/-- The end of a request moves its reservation to what it was charged for. -/
theorem CountersOf.settled {requests : List Request} {counters : TaskState} {index : ℕ}
    (before : CountersOf requests request.state counters) (here : requests[index]? = some request)
    (open_ : request.outcome = .outstanding) (completion : Budget.Completion)
    : CountersOf (requests.set index (request.ended completion)) request.state
        (Budget.settled counters request.reservation completion) := by
  have states := states_set (request.ended completion) here rfl
  have sums := fun measure : Request → ℚ =>
    tally_set measure request.state (request.ended completion) here rfl
  unfold Budget.settled
  cases report : completion.reported? with
  | some tokens =>
      have outcome : (request.ended completion).outcome = .reported tokens := by
        simp [Request.ended, Request.outcomeOf, report]
      constructor
      · rw [states, ← before.admitted]
      · rw [sums, if_pos rfl, ← before.reported]
        simp [Request.reported, outcome, open_]
      · rw [sums, if_pos rfl, ← before.unreported]
        simp [Request.unreported, outcome, open_]
      · rw [sums, if_pos rfl, ← before.reserved]
        simp [Request.held, outcome, open_, sub_eq_add_neg]
  | none =>
      have outcome : (request.ended completion).outcome = .unreported := by
        simp [Request.ended, Request.outcomeOf, report]
      constructor
      · rw [states, ← before.admitted]
      · rw [sums, if_pos rfl, ← before.reported]
        simp [Request.reported, outcome, open_]
      · rw [sums, if_pos rfl, ← before.unreported]
        have reservation : (request.ended completion).reservation = request.reservation := rfl
        simp [Request.unreported, outcome, open_, reservation]
      · rw [sums, if_pos rfl, ← before.reserved]
        simp [Request.held, outcome, open_, sub_eq_add_neg]

/-- The end of a request, with or without a report. -/
theorem Booked.complete (booked : Booked policy system) {index : ℕ}
    (found : Request.outstanding? system.requests index = some request)
    (completion : Budget.Completion)
    : Booked policy
        {
          system with
          budget := system.budget.complete request.state request.reservation completion
          requests := system.requests.set index (request.ended completion)
        } := by
  obtain ⟨here, open_⟩ := getElem?_of_outstanding found
  have tasks := booked.tasks
  have listed := List.mem_of_getElem? here
  -- an ended request differs from the outstanding one in its outcome only
  have outcomeOnly : ∀ other ∈ system.requests.set index (request.ended completion),
      ∃ old ∈ system.requests, other.state = old.state ∧ other.finishes = old.finishes := by
    intro other member
    rcases List.mem_or_eq_of_mem_set member with old | ended
    · exact ⟨other, old, rfl, rfl⟩
    · exact ⟨request, listed, by rw [ended]; rfl, by rw [ended]; rfl⟩
  refine booked.modify (fun other => ?_) ?_ {
    current_lt := tasks.current_lt
    state_lt := ?_
    finishes_le := ?_
    finishes_lt := fun finished other member => ?_
    current := fun running other member => ?_
    same := ?_
  }
  · rw [Heap.read_modify]
    have counters := booked.counters other
    split
    · rename_i same
      subst same
      exact counters.settled here open_ completion
    · rename_i elsewhere
      have different : ¬ request.state = other := fun same => elsewhere same.symm
      constructor
      · rw [states_set (request.ended completion) here rfl, counters.admitted]
      · rw [tally_set _ _ (request.ended completion) here rfl, if_neg different, add_zero,
          counters.reported]
      · rw [tally_set _ _ (request.ended completion) here rfl, if_neg different, add_zero,
          counters.unreported]
      · rw [tally_set _ _ (request.ended completion) here rfl, if_neg different, add_zero,
          counters.reserved]
  · rw [requests_settled]
    exact booked.limited request.state
  · intro other member
    obtain ⟨old, known, sameState, -⟩ := outcomeOnly other member
    exact sameState ▸ tasks.state_lt old known
  · intro other member
    obtain ⟨old, known, -, sameFinishes⟩ := outcomeOnly other member
    exact sameFinishes ▸ tasks.finishes_le old known
  · obtain ⟨old, known, -, sameFinishes⟩ := outcomeOnly other member
    exact sameFinishes ▸ tasks.finishes_lt finished old known
  · obtain ⟨old, known, sameState, sameFinishes⟩ := outcomeOnly other member
    rw [sameState, sameFinishes]
    exact tasks.current running old known
  · intro first member second member'
    obtain ⟨old, known, sameState, sameFinishes⟩ := outcomeOnly first member
    obtain ⟨old', known', sameState', sameFinishes'⟩ := outcomeOnly second member'
    rw [sameState, sameFinishes, sameState', sameFinishes']
    exact tasks.same old known old' known'

/-- A call of `finishTask` stands after every request so far. -/
theorem Booked.finishTask (booked : Booked policy system)
    : Booked policy
        { system with budget := system.budget.finishTask, finishes := system.finishes + 1 } := by
  have tasks := booked.tasks
  refine ⟨booked.counters, booked.limited, ?_⟩
  exact {
    current_lt := tasks.current_lt
    state_lt := tasks.state_lt
    finishes_le := fun request listed => (tasks.finishes_le request listed).trans (Nat.le_succ _)
    finishes_lt := fun _ request listed => Nat.lt_succ_of_le (tasks.finishes_le request listed)
    current := fun running => nomatch running
    same := tasks.same
  }

end Invariant

section Runs

variable {policy : BudgetPolicy} {system : System}

/-- The task object that takes one more request. -/
def reserving (budget : Budget) (reservation : ℚ) : Budget :=
  budget.modifyState budget.state fun state =>
    {
      state with
      requests := state.requests + 1
      reservedTokens := state.reservedTokens + reservation
    }

/-- All that the start of a request can do to a budget. -/
inductive RunMove (policy : BudgetPolicy) (budget : Budget) : Budget → Budget.Admission → Prop
  | aborted : RunMove policy budget budget .aborted
  | skipped (reason : Suppression) (detail : Option SkipDetail)
    : RunMove policy budget budget.rollOver.skip (.skipped reason detail)
  | admitted (maxTokens reservation : ℚ)
      (room : budget.rollOver.current.requests < policy.drafterTaskMaxRequests)
      (fits : budget.rollOver.current.spent + reservation ≤ policy.drafterTaskMaxTokens)
    : RunMove policy budget (reserving budget.rollOver reservation)
        (.admitted budget.rollOver.state maxTokens reservation)

theorem run_move (policy : BudgetPolicy) (input : Budget.RunInput) (budget : Budget)
    : RunMove policy budget (budget.run policy input).1 (budget.run policy input).2 := by
  unfold Budget.run
  split
  · exact .aborted
  · by_cases room : budget.rollOver.current.requests < policy.drafterTaskMaxRequests
        ∧ budget.rollOver.current.spent < policy.drafterTaskMaxTokens
    · have allowed : budget.available policy = (budget.rollOver, none) := if_pos room
      rw [allowed]
      dsimp only
      cases limit : input.maxTokens? (policy.drafterTaskMaxTokens - budget.rollOver.current.spent) with
      | none => exact .skipped _ _
      | some maxTokens =>
          refine .admitted maxTokens _ room.1 ?_
          have bounded := positiveFloor?_le limit
          linarith
    · have refused : ∃ reason, budget.available policy = (budget.rollOver.skip, some reason) :=
        ⟨_, if_neg room⟩
      obtain ⟨reason, refused⟩ := refused
      rw [refused]
      exact .skipped reason none

/-- Every event keeps the account of every task. -/
theorem Booked.step (booked : Booked policy system) (event : Event)
    : Booked policy (system.step policy event) := by
  cases event with
  | probe => exact booked.available
  | run input =>
      have move := run_move policy input system.budget
      unfold System.step
      dsimp only
      generalize system.budget.run policy input = ran at move ⊢
      obtain ⟨budget, admission⟩ := ran
      cases move with
      | aborted => exact booked
      | skipped reason detail => exact booked.rollOver.skip
      | admitted maxTokens reservation room fits =>
          exact booked.rollOver.admit (rollOver_finished system.budget) room reservation
  | complete index completion =>
      unfold System.step
      dsimp only
      cases found : Request.outstanding? system.requests index with
      | none => exact booked
      | some request => exact booked.complete found completion
  | finishTask => exact booked.finishTask

end Runs

section Spending

variable {policy : BudgetPolicy} {system : System}

/-- No task object has spent more than the limit. -/
def WithinLimit (policy : BudgetPolicy) (system : System) : Prop :=
  ∀ state, (system.budget.states.read state).spent ≤ policy.drafterTaskMaxTokens

/-- When the event ends a request, the request reports at most its reservation. -/
def ReportsWithin (system : System) (event : Event) : Prop :=
  ∀ index completion,
    event = .complete index completion
    → ∀ request ∈ Request.outstanding? system.requests index,
        ∀ tokens ∈ completion.reported?, tokens ≤ request.reservation

theorem spent_rollOver (budget : Budget) (limit : ℚ) (limit_nonneg : 0 ≤ limit)
    (within : ∀ state, (budget.states.read state).spent ≤ limit) (state : ℕ)
    : (budget.rollOver.states.read state).spent ≤ limit := by
  unfold Budget.rollOver
  split
  · dsimp only
    rw [Heap.read_alloc]
    split
    · simpa [TaskState.spent] using limit_nonneg
    · exact within state
  · exact within state

theorem spent_skip (budget : Budget) (state : ℕ)
    : (budget.skip.states.read state).spent = (budget.states.read state).spent := by
  unfold Budget.skip Budget.modifyState
  dsimp only
  rw [Heap.read_modify]
  split <;> rfl

/-- A reservation is spent by its own task object. -/
theorem spent_reserving (budget : Budget) (reservation : ℚ) (state : ℕ)
    : ((reserving budget reservation).states.read state).spent
      = (budget.states.read state).spent + if state = budget.state then reservation else 0 := by
  unfold reserving Budget.modifyState
  dsimp only
  rw [Heap.read_modify]
  split
  · simp only [TaskState.spent]
    ring
  · rw [add_zero]

/-- The end of a request spends what its report exceeds the reservation by. -/
theorem spent_complete (budget : Budget) (owner : ℕ) (reservation : ℚ)
    (completion : Budget.Completion) (state : ℕ)
    : ((budget.complete owner reservation completion).states.read state).spent
      = (budget.states.read state).spent
        + if state = owner then completion.reported?.getD reservation - reservation else 0 := by
  unfold Budget.complete Budget.modifyState
  dsimp only
  rw [Heap.read_modify]
  split
  · unfold Budget.settled
    split
    · rename_i report
      simp only [TaskState.spent, report, Option.getD_some]
      ring
    · rename_i report
      simp only [TaskState.spent, report, Option.getD_none]
      ring
  · rw [add_zero]

/-- Without a report above its reservation no event spends more than the limit. -/
theorem WithinLimit.step (within : WithinLimit policy system) {event : Event}
    (reports : ReportsWithin system event)
    : WithinLimit policy (system.step policy event) := by
  have limit_nonneg : (0 : ℚ) ≤ policy.drafterTaskMaxTokens := Nat.cast_nonneg _
  have rolled := spent_rollOver system.budget _ limit_nonneg within
  cases event with
  | probe =>
      intro state
      show ((system.budget.available policy).1.states.read state).spent ≤ _
      unfold Budget.available
      dsimp only
      split
      · exact rolled state
      · rw [spent_skip]
        exact rolled state
  | run input =>
      have move := run_move policy input system.budget
      unfold System.step
      dsimp only
      generalize system.budget.run policy input = ran at move ⊢
      obtain ⟨budget, admission⟩ := ran
      intro state
      cases move with
      | aborted => exact within state
      | skipped reason detail =>
          exact (spent_skip system.budget.rollOver state).trans_le (rolled state)
      | admitted maxTokens reservation room fits =>
          refine (spent_reserving system.budget.rollOver reservation state).trans_le ?_
          split
          · rename_i here
            rw [here]
            exact fits
          · rw [add_zero]
            exact rolled state
  | complete index completion =>
      unfold System.step
      dsimp only
      cases found : Request.outstanding? system.requests index with
      | none => exact within
      | some request =>
          intro state
          dsimp only
          rw [spent_complete]
          have before := within state
          split
          · cases report : completion.reported? with
            | none => simpa using before
            | some tokens =>
                have bounded := reports index completion rfl request found tokens report
                rw [Option.getD_some]
                linarith
          · rwa [add_zero]
  | finishTask => exact within

end Spending

section Accounting

/-- The system after some events under a constant policy. -/
def afterEvents (policy : BudgetPolicy) (events : List Event) : System :=
  runAll (System.step policy) System.start events

theorem afterEvents_snoc (policy : BudgetPolicy) (events : List Event) (event : Event)
    : afterEvents policy (events ++ [event]) = (afterEvents policy events).step policy event :=
  runAll_snoc _ _ _ _

end Accounting

end SpeculativeAction.DrafterBudget
