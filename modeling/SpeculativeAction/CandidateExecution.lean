import SpeculativeAction.Settlement
import SpeculativeAction.Library.TransitionSystem

/-! Execution and reservation of one speculative candidate. Leases are closures that
outlive the reservation they came from, so each issued lease keeps its own record here.
-/

namespace SpeculativeAction.CandidateExecution

open SpeculativeAction.Library

variable {Output Timing : Type} {reuse : ReservationKind} {index : ℕ} {lease : Lease}

-- Execution and reservation values

/-- Execution of the candidate; the last two constructors and success are settlements. -/
inductive ExecutionState (Output Timing : Type) where
  | queued
  | running (startedAt : ℚ)
  | succeeded (output : Output) (toolExecution : Timing) (executionMs : ℚ)
  | failed (cause : ResolutionCause) (executionMs : ℚ)
  | cancelled (cause : ResolutionCause) (executionMs : ℚ)
deriving DecidableEq

inductive ExclusiveStatus where
  | available | reserved | consumed
deriving DecidableEq

inductive Reservation where
  | shared (owners : List String)
  | exclusive (status : ExclusiveStatus) (turnID : Option String)
deriving DecidableEq

inductive ReservationKind where
  | shared | exclusive
deriving DecidableEq

inductive LeaseState where
  | active | released | consumed
deriving DecidableEq

/-- The closure variables of one issued lease. -/
structure Lease where
  owner : String
  kind : ReservationKind
  state : LeaseState
deriving DecidableEq

/-- One candidate: its execution, its reservation and every lease it ever issued, in
issue order. `completion` is the settled promise value and `releasedCalls` counts the
calls of the optional `released` callback.
-/
structure Work (Output Timing : Type) where
  executionValue : ExecutionState Output Timing
  reservationValue : Reservation
  leases : List Lease
  completion : Option (ExecutionState Output Timing)
  aborted : Option ResolutionCause
  releasedCalls : ℕ
deriving DecidableEq

def ExecutionState.isSucceeded : ExecutionState Output Timing → Bool
  | .succeeded .. => true
  | _ => false

def ExecutionState.isFailedOrCancelled : ExecutionState Output Timing → Bool
  | .failed .. | .cancelled .. => true
  | _ => false

def ExecutionState.isSettled (state : ExecutionState Output Timing) : Bool :=
  state.isSucceeded || state.isFailedOrCancelled

def Reservation.kind : Reservation → ReservationKind
  | .shared _ => .shared
  | .exclusive .. => .exclusive

-- Operations

/-- A new candidate is queued and unreserved. -/
def create (reuse : ReservationKind) : Work Output Timing where
  executionValue := .queued
  reservationValue :=
    match reuse with
    | .shared => .shared []
    | .exclusive => .exclusive .available none
  leases := []
  completion := none
  aborted := none
  releasedCalls := 0

namespace Work

def start (work : Work Output Timing) (startedAt : Number) : Work Output Timing × Bool :=
  match work.executionValue with
  | .queued =>
      ({ work with executionValue := .running startedAt.nonNegativeFinite }, true)
  | _ => (work, false)

/-- Settle the execution: any settlement from running, only a failure from queued.
The completion promise keeps its first value.
-/
def finish (work : Work Output Timing) (settlement : ExecutionState Output Timing)
    : Work Output Timing × Bool :=
  let accepted := match work.executionValue with
    | .running _ => true
    | .queued => !settlement.isSucceeded
    | _ => false
  if accepted then
    ({
      work with
      executionValue := settlement
      completion := some (work.completion.getD settlement)
    }, true)
  else
    (work, false)

def succeed (work : Work Output Timing) (output : Output) (toolExecution : Timing)
    (executionMs : Number)
    : Work Output Timing × Bool :=
  work.finish (.succeeded output toolExecution executionMs.nonNegativeFinite)

def fail (work : Work Output Timing) (cause : ResolutionCause) (executionMs : Number)
    : Work Output Timing × Bool :=
  work.finish (.failed cause executionMs.nonNegativeFinite)

/-- Cancelling also aborts the controller; its first reason stands. -/
def cancel (work : Work Output Timing) (cause : ResolutionCause) (executionMs : Number)
    : Work Output Timing × Bool :=
  let (next, changed) := work.finish (.cancelled cause executionMs.nonNegativeFinite)
  (if changed then { next with aborted := some (next.aborted.getD cause) } else next, changed)

/-- Reserve the candidate; the result is the new lease's position among all leases. -/
def acquire (work : Work Output Timing) (owner : String) : Work Output Timing × Option ℕ :=
  if work.executionValue.isFailedOrCancelled then
    (work, none)
  else
    match work.reservationValue with
    | .shared owners =>
        if owner ∈ owners then
          (work, none)
        else
          ({
            work with
            reservationValue := .shared (owners ++ [owner])
            leases := work.leases ++ [⟨owner, .shared, .active⟩]
          }, some work.leases.length)
    | .exclusive status _ =>
        if status ≠ .available then
          (work, none)
        else
          ({
            work with
            reservationValue := .exclusive .reserved (some owner)
            leases := work.leases ++ [⟨owner, .exclusive, .active⟩]
          }, some work.leases.length)

/-- The writes of a successful settlement of `lease`, the one issued at `index`. -/
def settleLease (work : Work Output Timing) (index : ℕ) (lease : Lease) (consumed : Bool)
    : Work Output Timing :=
  {
    work with
    reservationValue :=
      match work.reservationValue with
      | .shared owners => .shared (owners.filter (· ≠ lease.owner))
      | .exclusive .. => .exclusive (if consumed then .consumed else .available) none
    leases :=
      work.leases.set index { lease with state := if consumed then .consumed else .released }
    releasedCalls :=
      if lease.kind = .exclusive then work.releasedCalls + 1 else work.releasedCalls
  }

/-- The `settle` closure of the lease at `index`: adoption of exclusive work consumes it,
every other exit releases it.
-/
def settle (work : Work Output Timing) (index : ℕ) (adopt : Bool)
    : Work Output Timing × Bool :=
  match work.leases[index]? with
  | none => (work, false)
  | some lease =>
      if lease.state ≠ .active then
        (work, false)
      else
        let consumed := adopt && lease.kind == .exclusive
        if consumed && !work.executionValue.isSucceeded then
          (work, false)
        else
          (work.settleLease index lease consumed, true)

end Work

/-- Everything a holder of the candidate or of one of its leases can do. -/
inductive Op (Output Timing : Type) where
  | acquire (owner : String)
  | release (lease : ℕ)
  | adopt (lease : ℕ)
  | start (startedAt : Number)
  | succeed (output : Output) (toolExecution : Timing) (executionMs : Number)
  | fail (cause : ResolutionCause) (executionMs : Number)
  | cancel (cause : ResolutionCause) (executionMs : Number)

/-- One operation with its outcome: whether it took effect. -/
def Work.perform (work : Work Output Timing) : Op Output Timing → Work Output Timing × Bool
  | .acquire owner => ((work.acquire owner).1, (work.acquire owner).2.isSome)
  | .release lease => work.settle lease false
  | .adopt lease => work.settle lease true
  | .start startedAt => work.start startedAt
  | .succeed output toolExecution executionMs => work.succeed output toolExecution executionMs
  | .fail cause executionMs => work.fail cause executionMs
  | .cancel cause executionMs => work.cancel cause executionMs

def Work.step (work : Work Output Timing) (op : Op Output Timing) : Work Output Timing :=
  (work.perform op).1

/-- The candidate after any sequence of operations. -/
def afterOps (reuse : ReservationKind) (ops : List (Op Output Timing)) : Work Output Timing :=
  runAll Work.step (create reuse) ops

-- What holds of every reachable candidate

namespace Work

def activeLeases (work : Work Output Timing) : List Lease :=
  work.leases.filter (·.state = .active)

def consumedLeases (work : Work Output Timing) : List Lease :=
  work.leases.filter (·.state = .consumed)

end Work

/-- The leases agree with the reservation value. Every lease has the kind of the
reservation; shared owners are the active leases' owners in issue order; exclusive work
counts its active and consumed leases by its status.
-/
structure Agrees (reuse : ReservationKind) (work : Work Output Timing) : Prop where
  kind : work.reservationValue.kind = reuse
  leaseKinds : ∀ lease ∈ work.leases, lease.kind = reuse
  owners
    : ∀ owners,
        work.reservationValue = .shared owners
        → owners = work.activeLeases.map Lease.owner ∧ owners.Nodup
  active
    : ∀ status turnID,
        work.reservationValue = .exclusive status turnID
        → work.activeLeases.length = if status = .reserved then 1 else 0
  consumed
    : ∀ status turnID,
        work.reservationValue = .exclusive status turnID
        → work.consumedLeases.length = if status = .consumed then 1 else 0
  succeeded
    : ∀ turnID,
        work.reservationValue = .exclusive .consumed turnID
        → work.executionValue.isSucceeded

theorem create_agrees (reuse : ReservationKind)
    : Agrees reuse (create reuse : Work Output Timing) := by
  cases reuse <;> constructor <;>
    simp [create, Reservation.kind, Work.activeLeases, Work.consumedLeases]

variable {work : Work Output Timing}

/-- A field update that leaves the reservation, the leases and success alone keeps
agreement.
-/
theorem Agrees.of_execution {next : Work Output Timing} (agrees : Agrees reuse work)
    (reservation : next.reservationValue = work.reservationValue)
    (leases : next.leases = work.leases)
    (success : work.executionValue.isSucceeded → next.executionValue.isSucceeded)
    : Agrees reuse next := by
  refine {
    kind := reservation ▸ agrees.kind
    leaseKinds := leases ▸ agrees.leaseKinds
    owners := ?_
    active := ?_
    consumed := ?_
    succeeded := ?_
  }
  · simpa only [reservation, Work.activeLeases, leases] using agrees.owners
  · simpa only [reservation, Work.activeLeases, leases] using agrees.active
  · simpa only [reservation, Work.consumedLeases, leases] using agrees.consumed
  · intro turnID status
    exact success (agrees.succeeded turnID (reservation ▸ status))

/-- Settling the execution changes neither reservation nor leases and accepts no settled
execution.
-/
theorem Work.finish_cases (work : Work Output Timing) (settlement : ExecutionState Output Timing)
    : work.finish settlement = (work, false)
      ∨ (work.finish settlement).2 = true
        ∧ (work.finish settlement).1
          = {
              work with
              executionValue := settlement
              completion := some (work.completion.getD settlement)
            }
        ∧ ((∃ startedAt, work.executionValue = .running startedAt)
          ∨ work.executionValue = .queued ∧ settlement.isSucceeded = false) := by
  cases value : work.executionValue <;> simp [finish, value]
  cases settlement.isSucceeded <;> simp

theorem Agrees.finish (agrees : Agrees reuse work) (settlement : ExecutionState Output Timing)
    : Agrees reuse (work.finish settlement).1 := by
  rcases work.finish_cases settlement with same | ⟨-, next, before⟩
  · rw [same]; exact agrees
  · rw [next]
    refine agrees.of_execution rfl rfl fun success => ?_
    rcases before with ⟨_, running⟩ | ⟨queued, _⟩
    · simp [running, ExecutionState.isSucceeded] at success
    · simp [queued, ExecutionState.isSucceeded] at success

/-- A new active lease extends the active leases and no other class. -/
theorem Agrees.acquire (agrees : Agrees reuse work) (owner : String)
    : Agrees reuse (work.acquire owner).1 := by
  unfold Work.acquire
  split
  · exact agrees
  · split
    next owners value =>
      split
      · exact agrees
      next fresh =>
        obtain ⟨listed, unique⟩ := agrees.owners owners value
        have kind : reuse = .shared := by rw [← agrees.kind, value]; rfl
        constructor
        · simpa [Reservation.kind] using kind.symm
        · intro lease member
          rcases List.mem_append.mp member with old | new
          · exact agrees.leaseKinds lease old
          · rw [List.mem_singleton.mp new]; exact kind.symm
        · intro next same
          obtain rfl := (Reservation.shared.inj same).symm
          refine ⟨by simp [Work.activeLeases, listed], ?_⟩
          exact List.nodup_append.mpr ⟨unique, by simp, by
            intro other member new same
            exact fun equal => fresh (List.mem_singleton.mp same ▸ equal ▸ member)⟩
        all_goals intros; contradiction
    next status turnID value =>
      split
      · exact agrees
      next open_ =>
        have available : status = .available := not_not.mp open_
        have kind : reuse = .exclusive := by rw [← agrees.kind, value]; rfl
        have active := agrees.active status turnID value
        have consumed := agrees.consumed status turnID value
        subst available
        constructor
        · simpa [Reservation.kind] using kind.symm
        · intro lease member
          rcases List.mem_append.mp member with old | new
          · exact agrees.leaseKinds lease old
          · rw [List.mem_singleton.mp new]; exact kind.symm
        · intros; contradiction
        · intro next turn same
          obtain ⟨rfl, -⟩ := Reservation.exclusive.inj same
          simpa [Work.activeLeases] using active
        · intro next turn same
          obtain ⟨rfl, -⟩ := Reservation.exclusive.inj same
          simpa [Work.consumedLeases] using consumed
        · intro turn same
          simp at same

/-- A settlement acts only on an active lease, and consumes it only while the execution
is succeeded.
-/
theorem Work.settle_cases (work : Work Output Timing) (index : ℕ) (adopt : Bool)
    : work.settle index adopt = (work, false)
      ∨ ∃ lease consumed,
          work.leases[index]? = some lease
          ∧ lease.state = .active
          ∧ (consumed = true → lease.kind = .exclusive ∧ work.executionValue.isSucceeded)
          ∧ work.settle index adopt = (work.settleLease index lease consumed, true) := by
  unfold settle
  split
  · exact Or.inl rfl
  next lease found =>
    split
    · exact Or.inl rfl
    next inactive =>
      dsimp only
      split
      · exact Or.inl rfl
      next permitted =>
        refine Or.inr ⟨lease, _, found, not_not.mp inactive, ?_, rfl⟩
        intro consumed
        simp only [consumed, Bool.true_and, Bool.not_eq_true', Bool.not_eq_false] at permitted
        simp only [Bool.and_eq_true, beq_iff_eq] at consumed
        exact ⟨consumed.2, permitted⟩

/-- Replacing one element changes the length of a filtered list by that element alone. -/
theorem length_filter_set {leases : List Lease} (found : leases[index]? = some lease) (next : Lease)
    (keep : Lease → Bool)
    : ((leases.set index next).filter keep).length + (if keep lease then 1 else 0)
      = (leases.filter keep).length + (if keep next then 1 else 0) := by
  induction leases generalizing index with
  | nil => simp at found
  | cons head tail ih =>
      cases index with
      | zero =>
          obtain rfl := Option.some.inj found
          by_cases before : keep head <;> by_cases after : keep next <;> simp [before, after]
      | succ index =>
          have tailEq := ih (by simpa using found)
          by_cases kept : keep head
          · simp only [List.set_cons_succ, List.filter_cons, kept, ite_true, List.length_cons]
            omega
          · simpa [List.filter_cons, kept] using tailEq

/-- Deactivating one lease removes exactly its owner from duplicate-free active owners. -/
theorem activeOwners_set {leases : List Lease} {next : Lease} (found : leases[index]? = some lease)
    (active : lease.state = .active) (inactive : next.state ≠ .active)
    (unique : ((leases.filter (·.state = .active)).map Lease.owner).Nodup)
    : ((leases.set index next).filter (·.state = .active)).map Lease.owner
      = ((leases.filter (·.state = .active)).map Lease.owner).filter (· ≠ lease.owner) := by
  induction leases generalizing index with
  | nil => simp at found
  | cons head tail ih =>
      cases index with
      | zero =>
          obtain rfl := Option.some.inj found
          simp only [List.set_cons_zero, List.filter_cons, active, inactive, decide_true,
            decide_false, ite_true, List.map_cons, List.nodup_cons] at unique ⊢
          have others : ∀ owner ∈ (tail.filter (·.state = .active)).map Lease.owner,
              owner ≠ head.owner := fun owner member same => unique.1 (same ▸ member)
          simp only [ne_eq, not_true_eq_false, decide_false, Bool.false_eq_true, ite_false]
          exact (List.filter_eq_self.mpr fun owner member => by
            simpa using others owner member).symm
      | succ index =>
          have inTail : tail[index]? = some lease := by simpa using found
          by_cases headActive : head.state = .active
          · simp only [List.set_cons_succ, List.filter_cons, headActive, decide_true, ite_true,
              List.map_cons, List.nodup_cons] at unique ⊢
            have member : lease.owner ∈ (tail.filter (·.state = .active)).map Lease.owner :=
              List.mem_map_of_mem (List.mem_filter.mpr
                ⟨List.mem_of_getElem? inTail, by simpa using active⟩)
            have different : head.owner ≠ lease.owner := fun same => unique.1 (same ▸ member)
            rw [ih inTail unique.2]
            simp [different]
          · simp only [List.set_cons_succ, List.filter_cons, headActive, decide_false] at unique ⊢
            exact ih inTail unique

/-- Settling an active lease moves it out of the active leases and the reservation with it.
-/
theorem Agrees.settleLease {consumed : Bool} (agrees : Agrees reuse work)
    (found : work.leases[index]? = some lease) (active : lease.state = .active)
    (permitted : consumed = true → lease.kind = .exclusive ∧ work.executionValue.isSucceeded)
    : Agrees reuse (work.settleLease index lease consumed) := by
  have member := List.mem_of_getElem? found
  have kinds : ∀ other ∈ (work.settleLease index lease consumed).leases, other.kind = reuse := by
    intro other changed
    rcases List.mem_or_eq_of_mem_set changed with old | new
    · exact agrees.leaseKinds other old
    · rw [new]; exact agrees.leaseKinds lease member
  have inactive : (if consumed then LeaseState.consumed else .released) ≠ .active := by
    cases consumed <;> simp
  cases value : work.reservationValue with
  | shared owners =>
      obtain ⟨listed, unique⟩ := agrees.owners owners value
      have kind : reuse = .shared := by rw [← agrees.kind, value]; rfl
      refine ⟨?_, kinds, ?_, ?_, ?_, ?_⟩
      · simp [Work.settleLease, value, kind, Reservation.kind]
      · intro next same
        simp only [Work.settleLease, value, Reservation.shared.injEq] at same
        subst same
        refine ⟨?_, unique.filter _⟩
        rw [listed] at unique ⊢
        exact (activeOwners_set found active inactive unique).symm
      all_goals intros; simp_all [Work.settleLease]
  | exclusive status turnID =>
      have kind : reuse = .exclusive := by rw [← agrees.kind, value]; rfl
      have activeCount := agrees.active status turnID value
      have consumedCount := agrees.consumed status turnID value
      have positive : 0 < work.activeLeases.length :=
        List.length_pos_of_mem (List.mem_filter.mpr ⟨member, by simpa using active⟩)
      have reserved : status = .reserved := by
        by_contra other
        simp [other] at activeCount
        simp [activeCount] at positive
      subst reserved
      have fewer := length_filter_set found
        { lease with state := if consumed then .consumed else .released } (·.state = .active)
      have more := length_filter_set found
        { lease with state := if consumed then .consumed else .released } (·.state = .consumed)
      simp only [Work.activeLeases, Work.consumedLeases] at activeCount consumedCount
      simp only [activeCount, consumedCount, active, decide_true, ite_true, inactive] at fewer more
      refine ⟨?_, kinds, ?_, ?_, ?_, ?_⟩
      · simp [Work.settleLease, value, kind, Reservation.kind]
      · intro owners same
        simp [Work.settleLease, value] at same
      · intro next turn same
        simp only [Work.settleLease, value, Reservation.exclusive.injEq] at same
        obtain ⟨rfl, -⟩ := same
        cases consumed <;> simpa [Work.activeLeases, Work.settleLease] using fewer
      · intro next turn same
        simp only [Work.settleLease, value, Reservation.exclusive.injEq] at same
        obtain ⟨rfl, -⟩ := same
        cases consumed <;> simpa [Work.consumedLeases, Work.settleLease] using more
      · intro turn same
        simp only [Work.settleLease, value, Reservation.exclusive.injEq] at same
        cases consumed with
        | false => simp at same
        | true => exact (permitted rfl).2

/-- Every operation keeps the leases in agreement with the reservation. -/
theorem Agrees.step (agrees : Agrees reuse work) (op : Op Output Timing)
    : Agrees reuse (work.step op) := by
  have settles (index : ℕ) (adopt : Bool) : Agrees reuse (work.settle index adopt).1 := by
    rcases work.settle_cases index adopt with same | ⟨lease, consumed, found, active, permitted, next⟩
    · rw [same]; exact agrees
    · rw [next]; exact agrees.settleLease found active permitted
  cases op with
  | acquire owner => exact agrees.acquire owner
  | release lease => exact settles lease false
  | adopt lease => exact settles lease true
  | start startedAt =>
      simp only [Work.step, Work.perform, Work.start]
      split
      next queued =>
        exact agrees.of_execution rfl rfl (by simp [queued, ExecutionState.isSucceeded])
      · exact agrees
  | succeed output toolExecution executionMs => exact agrees.finish _
  | fail cause executionMs => exact agrees.finish _
  | cancel cause executionMs =>
      simp only [Work.step, Work.perform, Work.cancel]
      split
      · exact (agrees.finish _).of_execution rfl rfl id
      · exact agrees.finish _

theorem afterOps_agrees (reuse : ReservationKind) (ops : List (Op Output Timing))
    : Agrees reuse (afterOps reuse ops) :=
  runAll_invariant (Agrees reuse) (create_agrees reuse) (fun _ op agrees => agrees.step op) ops

-- Leases and settlements along a run

/-- The permitted transitions of the execution value. -/
inductive ExecutionMoves : ExecutionState Output Timing → ExecutionState Output Timing → Prop
  | stays (state) : ExecutionMoves state state
  | starts (startedAt) : ExecutionMoves .queued (.running startedAt)
  | settles {startedAt settlement} (settled : settlement.isSettled)
    : ExecutionMoves (.running startedAt) settlement
  | abandons {settlement} (failed : settlement.isFailedOrCancelled)
    : ExecutionMoves .queued settlement

theorem Work.finish_moves (work : Work Output Timing) (settlement : ExecutionState Output Timing)
    (settled : settlement.isSettled)
    : ExecutionMoves work.executionValue (work.finish settlement).1.executionValue := by
  rcases work.finish_cases settlement with same | ⟨-, next, before⟩
  · rw [same]; exact .stays _
  · rw [next]
    rcases before with ⟨startedAt, running⟩ | ⟨queued, failure⟩
    · rw [running]; exact .settles settled
    · rw [queued]
      simp only [ExecutionState.isSettled, failure, Bool.false_or] at settled
      exact .abandons settled

theorem Work.settle_execution (work : Work Output Timing) (index : ℕ) (adopt : Bool)
    : (work.settle index adopt).1.executionValue = work.executionValue := by
  rcases work.settle_cases index adopt with same | ⟨_, _, -, -, -, next⟩
  · rw [same]
  · rw [next]; rfl

theorem Work.acquire_execution (work : Work Output Timing) (owner : String)
    : (work.acquire owner).1.executionValue = work.executionValue := by
  unfold acquire
  split
  · rfl
  · split <;> split <;> rfl

/-- Every operation moves the execution only forward. -/
theorem Work.step_moves (work : Work Output Timing) (op : Op Output Timing)
    : ExecutionMoves work.executionValue (work.step op).executionValue := by
  cases op with
  | acquire owner => exact work.acquire_execution owner ▸ .stays _
  | release lease => exact work.settle_execution lease false ▸ .stays _
  | adopt lease => exact work.settle_execution lease true ▸ .stays _
  | start startedAt =>
      cases value : work.executionValue <;> simp only [step, perform, Work.start, value]
      case queued => exact .starts _
      all_goals exact .stays _
  | succeed output toolExecution executionMs => exact work.finish_moves _ rfl
  | fail cause executionMs => exact work.finish_moves _ rfl
  | cancel cause executionMs =>
      have moves := work.finish_moves (.cancelled cause executionMs.nonNegativeFinite) rfl
      simp only [step, perform, cancel]
      split <;> exact moves

/-- Whether this operation, performed now, settles the execution. -/
def Work.settles (work : Work Output Timing) : Op Output Timing → Bool
  | op@(.succeed ..) | op@(.fail ..) | op@(.cancel ..) => (work.perform op).2
  | _ => false

/-- How many operations of the run settle the execution. -/
def settlements (work : Work Output Timing) : List (Op Output Timing) → ℕ
  | [] => 0
  | op :: rest => (if work.settles op then 1 else 0) + settlements (work.step op) rest

/-- A settled execution is never settled again and keeps its value. -/
theorem Work.step_of_settled (settled : work.executionValue.isSettled) (op : Op Output Timing)
    : work.settles op = false ∧ (work.step op).executionValue = work.executionValue := by
  have refused (settlement : ExecutionState Output Timing)
      : work.finish settlement = (work, false) := by
    rcases work.finish_cases settlement with same | ⟨-, -, ⟨_, running⟩ | ⟨queued, -⟩⟩
    · exact same
    · simp [running, ExecutionState.isSettled, ExecutionState.isSucceeded,
        ExecutionState.isFailedOrCancelled] at settled
    · simp [queued, ExecutionState.isSettled, ExecutionState.isSucceeded,
        ExecutionState.isFailedOrCancelled] at settled
  have unmoved : (work.step op).executionValue = work.executionValue := by
    have moves := work.step_moves op
    generalize work.executionValue = before, (work.step op).executionValue = after
      at moves settled ⊢
    cases moves with
    | stays => rfl
    | _ => cases settled
  refine ⟨?_, unmoved⟩
  cases op <;> simp [settles, perform, succeed, fail, cancel, refused]

theorem settlements_of_settled (settled : work.executionValue.isSettled)
    (ops : List (Op Output Timing))
    : settlements work ops = 0 := by
  induction ops generalizing work with
  | nil => rfl
  | cons op rest ih =>
      obtain ⟨none, same⟩ := Work.step_of_settled settled op
      simp [settlements, none, ih (same ▸ settled)]

/-- An accepted settlement leaves the execution settled. -/
theorem Work.step_settled {op : Op Output Timing} (settles : work.settles op)
    : (work.step op).executionValue.isSettled := by
  have finished (settlement : ExecutionState Output Timing) (settled : settlement.isSettled)
      (accepted : (work.finish settlement).2 = true)
      : (work.finish settlement).1.executionValue.isSettled := by
    rcases work.finish_cases settlement with same | ⟨-, next, -⟩
    · simp [same] at accepted
    · rw [next]; exact settled
  cases op with
  | succeed output toolExecution executionMs => exact finished _ rfl settles
  | fail cause executionMs => exact finished _ rfl settles
  | cancel cause executionMs =>
      have accepted := finished (.cancelled cause executionMs.nonNegativeFinite) rfl settles
      simp only [step, perform, cancel]
      split <;> exact accepted
  | _ => cases settles

/-- No run settles the execution twice. -/
theorem settlements_le_one (work : Work Output Timing) (ops : List (Op Output Timing))
    : settlements work ops ≤ 1 := by
  induction ops generalizing work with
  | nil => simp [settlements]
  | cons op rest ih =>
      cases settles : work.settles op with
      | false => simpa [settlements, settles] using ih (work.step op)
      | true => simp [settlements, settles, settlements_of_settled (Work.step_settled settles)]

/-- A settled lease refuses both exits and keeps its record under every operation. -/
theorem Work.settled_lease (found : work.leases[index]? = some lease)
    (settled : lease.state ≠ .active)
    : (∀ adopt, work.settle index adopt = (work, false))
      ∧ ∀ op, (work.step op).leases[index]? = some lease := by
  have bound : index < work.leases.length := (List.getElem?_eq_some_iff.mp found).1
  have kept (other : ℕ) (adopt : Bool) : (work.settle other adopt).1.leases[index]? = some lease := by
    rcases work.settle_cases other adopt with same | ⟨active, _, present, isActive, -, next⟩
    · rw [same]; exact found
    · rw [next]
      have different : other ≠ index := by
        rintro rfl
        exact settled (Option.some.inj (found.symm.trans present) ▸ isActive)
      simpa [settleLease, List.getElem?_set_ne different] using found
  have finish_leases (settlement : ExecutionState Output Timing)
      : (work.finish settlement).1.leases = work.leases := by
    rcases work.finish_cases settlement with same | ⟨-, next, -⟩
    · rw [same]
    · rw [next]
  refine ⟨fun adopt => by simp [settle, found, settled], fun op => ?_⟩
  cases op with
  | acquire owner =>
      simp only [step, perform, acquire]
      split
      · exact found
      · split <;> split <;> simp only [List.getElem?_append_left bound, found]
  | release other => exact kept other false
  | adopt other => exact kept other true
  | start startedAt =>
      simp only [step, perform, Work.start]
      split <;> exact found
  | succeed output toolExecution executionMs => exact (finish_leases _) ▸ found
  | fail cause executionMs => exact (finish_leases _) ▸ found
  | cancel cause executionMs =>
      simp only [step, perform, cancel]
      split <;> exact (finish_leases _) ▸ found

/-- A failed or cancelled candidate refuses every acquisition. -/
theorem Work.acquire_of_failed (failed : work.executionValue.isFailedOrCancelled) (owner : String)
    : work.acquire owner = (work, none) := by
  simp [acquire, failed]

/-- A consumed lease means the exclusive reservation is consumed, so nothing is acquired. -/
theorem Agrees.acquire_of_consumed (agrees : Agrees reuse work) (exclusive : reuse = .exclusive)
    (consumed : work.consumedLeases ≠ []) (owner : String)
    : work.acquire owner = (work, none) := by
  cases value : work.reservationValue with
  | shared owners => simp [← agrees.kind, value, Reservation.kind] at exclusive
  | exclusive status turnID =>
      have count := agrees.consumed status turnID value
      have positive := List.length_pos_of_ne_nil consumed
      cases status with
      | consumed => simp [Work.acquire, value]
      | _ => simp only [reduceCtorEq, ite_false] at count; omega

/-- A settled lease keeps its record through any further run. -/
theorem Work.settled_lease_run (found : work.leases[index]? = some lease)
    (settled : lease.state ≠ .active) (ops : List (Op Output Timing))
    : (runAll Work.step work ops).leases[index]? = some lease :=
  runAll_invariant (fun later : Work Output Timing => later.leases[index]? = some lease) found
    (fun _ op kept => (Work.settled_lease kept settled).2 op) ops

/-- A settled execution keeps its value through any further run. -/
theorem Work.settled_execution_run (settled : work.executionValue.isSettled)
    (ops : List (Op Output Timing))
    : (runAll Work.step work ops).executionValue = work.executionValue :=
  runAll_invariant
    (fun later : Work Output Timing => later.executionValue = work.executionValue) rfl
    (fun later op same =>
      have still : later.executionValue.isSettled := same ▸ settled
      (Work.step_of_settled still op).2.trans same) ops

-- Ownership of a candidate over every sequence of operations

/-- One exclusive candidate serves at most one holder, and is consumed at most once. -/
structure ExclusiveOwnership (work : Work Output Timing) : Prop where
  oneActive : work.activeLeases.length ≤ 1
  oneConsumed : work.consumedLeases.length ≤ 1
  consumedSucceeded : work.consumedLeases ≠ [] → work.executionValue.isSucceeded
  consumedFinal
    : work.consumedLeases ≠ []
      → ∀ later owner, ((runAll Work.step work later).acquire owner).2 = none
  reserved
    : (∃ turnID, work.reservationValue = .exclusive .reserved turnID)
      ↔ work.activeLeases.length = 1

/-- A shared candidate lists its holders. -/
structure SharedOwnership (work : Work Output Timing) : Prop where
  owners : work.reservationValue = .shared (work.activeLeases.map Lease.owner)
  unique : (work.activeLeases.map Lease.owner).Nodup

/-- The leases and execution of one candidate after a run, with every continuation. -/
structure Ownership (reuse : ReservationKind) (work : Work Output Timing) : Prop where
  exclusive : reuse = .exclusive → ExclusiveOwnership work
  shared : reuse = .shared → SharedOwnership work
  settledLease
    : ∀ index lease,
        work.leases[index]? = some lease
        → lease.state ≠ .active
        → (∀ adopt, work.settle index adopt = (work, false))
          ∧ ∀ later, (runAll Work.step work later).leases[index]? = some lease
  moves : ∀ op, ExecutionMoves work.executionValue (work.step op).executionValue
  closed
    : work.executionValue.isFailedOrCancelled
      → ∀ later owner, ((runAll Work.step work later).acquire owner).2 = none

theorem Agrees.run (agrees : Agrees reuse work) (ops : List (Op Output Timing))
    : Agrees reuse (runAll Work.step work ops) :=
  runAll_invariant (Agrees reuse) agrees (fun _ op agrees => agrees.step op) ops

theorem Agrees.exclusiveOwnership (agrees : Agrees .exclusive work)
    : ExclusiveOwnership work := by
  cases value : work.reservationValue with
  | shared owners => simpa [value, Reservation.kind] using agrees.kind
  | exclusive status turnID =>
      have active := agrees.active status turnID value
      have consumed := agrees.consumed status turnID value
      refine ⟨?_, ?_, ?_, ?_, ?_⟩
      · split at active <;> omega
      · split at consumed <;> omega
      · intro some
        have positive := List.length_pos_of_ne_nil some
        cases status with
        | consumed => exact agrees.succeeded turnID value
        | _ => simp only [reduceCtorEq, ite_false] at consumed; omega
      · intro some later owner
        obtain ⟨lease, rest, head⟩ := List.exists_cons_of_ne_nil some
        obtain ⟨member, isConsumed⟩ := List.mem_filter.mp
          (show lease ∈ work.consumedLeases by simp [head])
        obtain ⟨index, found⟩ := List.mem_iff_getElem?.mp member
        have kept := Work.settled_lease_run found (by simp_all) later
        have still : (runAll Work.step work later).consumedLeases ≠ [] :=
          List.ne_nil_of_mem (List.mem_filter.mpr ⟨List.mem_of_getElem? kept, isConsumed⟩)
        rw [(agrees.run later).acquire_of_consumed rfl still]
      · rw [active]
        cases status <;> simp [value]

/-- Ownership holds after every sequence of operations, and no sequence settles the
execution twice.
-/
theorem afterOps_ownership (reuse : ReservationKind) (ops : List (Op Output Timing))
    : Ownership reuse (afterOps reuse ops) ∧ settlements (create reuse) ops ≤ 1 := by
  have agrees := afterOps_agrees reuse ops
  refine ⟨?_, settlements_le_one _ ops⟩
  exact {
    exclusive := by rintro rfl; exact agrees.exclusiveOwnership
    shared := by
      rintro rfl
      cases value : (afterOps .shared ops).reservationValue with
      | shared owners =>
          obtain ⟨listed, unique⟩ := agrees.owners owners value
          exact ⟨by rw [value, listed], listed ▸ unique⟩
      | exclusive status turnID => simpa [value, Reservation.kind] using agrees.kind
    settledLease := fun index lease found settled =>
      ⟨(Work.settled_lease found settled).1, Work.settled_lease_run found settled⟩
    moves := fun op => Work.step_moves _ op
    closed := by
      intro failed later owner
      have settled : (afterOps reuse ops).executionValue.isSettled := by
        simp [ExecutionState.isSettled, failed]
      have same := Work.settled_execution_run settled later
      rw [Work.acquire_of_failed (same ▸ failed)]
  }

end SpeculativeAction.CandidateExecution
