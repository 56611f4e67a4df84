import SpeculativeAction.EffectTransaction.AdoptionOrder

/-! The validation lane of an open transaction stays in order: steps that leave it alone, a request
that enters it, and the proofs it runs one after the other.
-/

namespace SpeculativeAction.EffectTransaction

open SpeculativeAction.Library

variable {config : Config}
  {state : State} {waits : ℕ → List ℕ} {jobs : List Job} {reserve : Reserve}
  {query : Option ℕ}

/-- The lane and the authority are as before; requests may be added. -/
structure LaneKept (state next : State) : Prop where
  stateValue : next.stateValue = state.stateValue
  validation : next.validation = state.validation
  validationPromise : next.validationPromise = state.validationPromise
  lane : next.lane = state.lane
  found
    : ∀ {request : ℕ} {entry : Request},
        state.requests[request]? = some entry → next.requests[request]? = some entry

/-- The attempts are as before, too. -/
structure Grows (state next : State) : Prop extends LaneKept state next where
  outcome : next.outcome = state.outcome
  attempts : next.attempts = state.attempts

theorem Grows.steady {next : State} (grows : Grows state next) : Steady state next where
  outcome := grows.outcome
  attempts := grows.attempts
  resolved := by
    intro request resolved
    rw [State.hasResolved, Option.any_eq_true] at resolved ⊢
    obtain ⟨entry, found, settled⟩ := resolved
    exact ⟨entry, grows.found found, settled⟩

theorem LaneKept.latestValid {next : State} (kept : LaneKept state next)
    : next.latestValid = state.latestValid := by
  rw [State.latestValid, kept.validation, State.latestValid]

theorem Ready.kept {next : State} (ready : Ready state) (kept : LaneKept state next)
    : Ready next :=
  ⟨kept.latestValid.trans ready.valid, kept.stateValue.trans ready.validated⟩

theorem Line.kept {next : State} {first : ℕ} {rest : List ℕ} (line : Line state first rest)
    (kept : LaneKept state next)
    : Line next first rest where
  distinct := line.distinct
  queued request member := (line.queued request member).imp fun _ found => kept.found found
  last := kept.validationPromise.trans line.last

theorem Lane.kept {next : State} {tail : Bool} (lane : Lane waits state tail jobs)
    (kept : LaneKept state next)
    : Lane waits next tail jobs := by
  cases lane with
  | idle lane promise value =>
      exact .idle (kept.lane.trans lane) (kept.validationPromise.trans promise)
        (value.of_eq kept.stateValue)
  | queued line lane found value =>
      exact .queued (line.kept kept) (kept.lane.trans lane) (kept.found found)
        (value.of_eq kept.stateValue)
  | proving line lane found source borrowed jobs =>
      exact .proving (line.kept kept) (kept.lane.trans lane) (kept.found found)
        (fun own => kept.stateValue.trans (source own))
        (fun query => (borrowed query).of_eq kept.stateValue) jobs
  | proved line lane found value recorded jobs =>
      exact .proved (line.kept kept) (kept.lane.trans lane) (kept.found found)
        (value.of_eq kept.stateValue) (fun own valid => (recorded own valid).kept kept) jobs

-- Steps that leave the lane and the attempts alone

theorem AttemptAt.grows {next : State} (attempt : AttemptAt state reserve jobs)
    (grows : Grows state next)
    : AttemptAt next reserve jobs :=
  attempt.steady grows.steady (.inl grows.stateValue) (.inl grows.validationPromise)

namespace Adoption

variable {adoption : Adoption} {reserve : Reserve} {rest : List Job}

/-- More requests and commit calls change nothing about the order. -/
theorem Orderly.grows {next : Adoption} (orderly : adoption.Orderly reserve)
    (grows : Grows adoption.transaction next.transaction) (queue : next.queue = adoption.queue)
    (tail : next.tailSettled = adoption.tailSettled)
    : next.Orderly reserve where
  attempt := by
    rw [attemptJobs, queue]
    exact orderly.attempt.grows grows
  lane early := by
    rw [laneJobs, queue, tail]
    exact (orderly.lane early).kept grows.toLaneKept
  ready early promise job member follows :=
    (orderly.ready early (grows.validationPromise.symm.trans promise) job (queue ▸ member)
      follows).kept grows.toLaneKept
  idle past := by
    obtain ⟨lane, promise, settled, jobs⟩ := orderly.idle past
    exact ⟨grows.lane.trans lane, grows.validationPromise.trans promise, tail.trans settled,
      by rw [laneJobs, queue]; exact jobs⟩
  near resumes := by
    rw [grows.lane, grows.validationPromise, laneJobs, queue]
    exact orderly.near resumes
  joins reserved job member := orderly.joins (grows.outcome ▸ reserved) job (queue ▸ member)
  ordered := queue ▸ orderly.ordered

/-- The queue changes, but not what the lane and the attempt wait for. -/
theorem Orderly.requeue (orderly : adoption.Orderly reserve) {queue : List Job}
    (lane : Adoption.laneJobs { adoption with queue } = adoption.laneJobs)
    (attempt : Adoption.attemptJobs { adoption with queue } = adoption.attemptJobs)
    (adopts
      : ∀ job ∈ queue, job.adoptsIn ≠ none → ∃ old ∈ adoption.queue, old.adoptsIn ≠ none)
    (admits
      : ∀ job ∈ queue, job.admitsIn ≠ none → ∃ old ∈ adoption.queue, old.admitsIn ≠ none)
    (ordered : Ordered queue)
    : Adoption.Orderly reserve { adoption with queue } where
  attempt := by rw [attempt]; exact orderly.attempt
  lane early := by rw [lane]; exact orderly.lane early
  ready early promise job member follows := by
    obtain ⟨old, earlier, before⟩ := adopts job member follows
    exact orderly.ready early promise old earlier before
  idle past := by
    obtain ⟨empty, promise, settled, jobs⟩ := orderly.idle past
    exact ⟨empty, promise, settled, lane.trans jobs⟩
  near resumes := by rw [lane]; exact orderly.near resumes
  joins reserved job member := by
    by_contra follows
    obtain ⟨old, earlier, before⟩ := admits job member follows
    exact before (orderly.joins reserved old earlier)
  ordered := ordered

/-- A continuation that neither the lane nor the attempt waits for has run. -/
theorem Orderly.drop {job : Job} (orderly : adoption.Orderly reserve)
    (queue : adoption.queue = job :: rest) (lane : job.isLane = false)
    (attempt : job.isAttempt = false)
    : Adoption.Orderly reserve { adoption with queue := rest } := by
  refine orderly.requeue ?_ ?_ ?_ ?_ (queue ▸ orderly.ordered).tail
  · simp [laneJobs, queue, lane]
  · simp [attemptJobs, queue, attempt]
  · exact fun other member follows => ⟨other, by simp [queue, member], follows⟩
  · exact fun other member follows => ⟨other, by simp [queue, member], follows⟩

/-- A chain that neither the lane nor the attempt waits for goes on. -/
theorem Orderly.continue {job next : Job} (orderly : adoption.Orderly reserve)
    (queue : adoption.queue = job :: rest) (lane : job.isLane = false ∧ next.isLane = false)
    (attempt : job.isAttempt = false ∧ next.isAttempt = false)
    (adopts : Advances Job.adoptsIn job next) (withdraws : Advances Job.withdrawsIn job next)
    (admits : Advances Job.admitsIn job next) (returns : next.returnsIn = none)
    (resumes : next.resumesIn = none)
    : Adoption.Orderly reserve (Adoption.push { adoption with queue := rest } [next]) := by
  have ordered : Ordered (job :: rest) := queue ▸ orderly.ordered
  have earlier (chain : Job → Option ℕ) (advances : Advances chain job next) (other : Job)
      (member : other ∈ rest ++ [next]) (follows : chain other ≠ none)
      : ∃ old ∈ adoption.queue, chain old ≠ none := by
    rcases List.mem_append.mp member with before | last
    · exact ⟨other, by simp [queue, before], follows⟩
    · obtain rfl := List.mem_singleton.mp last
      obtain ⟨count, left⟩ := Option.ne_none_iff_exists'.mp follows
      exact ⟨job, by simp [queue], by simp [advances.shorter count left]⟩
  refine orderly.requeue ?_ ?_ (earlier _ adopts) (earlier _ admits)
    (ordered.rotate adopts withdraws admits returns resumes)
  · simp [laneJobs, queue, lane]
  · simp [attemptJobs, queue, attempt]

end Adoption

-- Requests that enter the lane

/-- The second half of `validate`, in a transaction that is not retired. -/
theorem admitValidation_admits {called : State} {request : ℕ} {phase : RequestPhase}
    (isOpen : called.isSealed = false)
    (accepts : called.stateValue ∉ [.aborted, .aborting, .poisoned, .failed])
    (grows : Grows state called)
    (others : ∀ other, other ≠ request → called.requests[other]? = state.requests[other]?)
    (found : called.requests[request]? = some ⟨query, phase⟩)
    (fresh : ∀ entry, state.requests[request]? = some entry → entry.phase.isLined = false)
    : Admits state (admitValidation called request) request := by
  have admitted : admitValidation called request
      = {
        called.setRequest request .queued with
        lane := called.lane ++ [.validate request]
        validationPromise := some request
      } := by
    rw [admitValidation, if_neg]
    simpa [isOpen] using accepts
  rw [admitted]
  refine ⟨fresh, fun other different => ?_, ⟨query, setRequest_found found .queued⟩, ?_, rfl,
    grows.stateValue, grows.validation, grows.outcome⟩
  · rw [← others other different]
    change (called.setRequest request .queued).requests[other]? = _
    rw [getElem?_setRequest]
    simp [different.symm]
  · simp [grows.lane]

/-- The lane keeps the transaction in a state that admits requests. -/
theorem Lane.accepts {tail : Bool} (lane : Lane waits state tail jobs)
    : state.stateValue ∉ [.aborted, .aborting, .poisoned, .failed]
      ∧ state.stateValue ≠ .committed := by
  have rests (value : Resting state)
      : state.stateValue ∉ [.aborted, .aborting, .poisoned, .failed]
        ∧ state.stateValue ≠ .committed := by
    rcases value with same | same <;> simp [same]
  cases lane with
  | idle lane promise value => exact rests value
  | queued line lane found value => exact rests value
  | @proving first rest query released pending line lane found source borrowed jobs =>
      by_cases own : query = none
      · simp [source own]
      · exact rests (borrowed own)
  | proved line lane found value recorded jobs => exact rests value

theorem Lane.jobs_eq_nil (lane : Lane waits state true jobs)
    : jobs = [] := by
  cases lane
  rfl

theorem AttemptAt.free_of_outcome (attempt : AttemptAt state reserve jobs)
    (outcome : state.outcome = none)
    : reserve = .free ∧ jobs = [] := by
  cases attempt with
  | unreserved _ => exact ⟨rfl, rfl⟩
  | scheduled reserved | awaiting reserved | resuming reserved | invoking reserved
  | failing reserved => cases outcome.symm.trans reserved

/-- Without a reserved attempt a call of `validate` enters the lane. -/
theorem validate_admits (able : canRequest state query = true) (outcome : state.outcome = none)
    (isOpen : state.isSealed = false)
    (accepts : state.stateValue ∉ [.aborted, .aborting, .poisoned, .failed])
    : ∃ next,
        validate state query = some next ∧ Admits state next state.requests.length := by
  let called : State := { state with requests := state.requests ++ [⟨query, .queued⟩] }
  have grows : Grows state called := ⟨⟨rfl, rfl, rfl, rfl, by grind⟩, rfl, rfl⟩
  refine ⟨admitValidation called state.requests.length, ?_, ?_⟩
  · simp [validate, able, outcome, called]
  · have found : called.requests[state.requests.length]? = some ⟨query, .queued⟩ := by
      simp [called]
    refine admitValidation_admits isOpen accepts grows (fun other different => ?_) found (by simp)
    rcases Nat.lt_or_gt_of_ne different with earlier | beyond
    · exact List.getElem?_append_left earlier
    · rw [List.getElem?_eq_none (by simpa [called] using Nat.succ_le_of_lt beyond),
        List.getElem?_eq_none (Nat.le_of_lt beyond)]

/-- With a reserved attempt it waits for the attempt to settle. -/
theorem validate_joins {attempt : ℕ} (able : canRequest state query = true)
    (outcome : state.outcome = some attempt) (isOpen : state.isSealed = false)
    (uncommitted : state.stateValue ≠ .committed)
    : ∃ next,
        validate state query = some next
        ∧ Grows state next
        ∧ next.requests[state.requests.length]? = some ⟨query, .joining attempt⟩ := by
  let called : State := { state with requests := state.requests ++ [⟨query, .queued⟩] }
  have found : called.requests[state.requests.length]? = some ⟨query, .queued⟩ := by simp [called]
  refine ⟨called.setRequest state.requests.length (.joining attempt), ?_, ?_,
    setRequest_found found (.joining attempt)⟩
  · simp [validate, able, outcome, isOpen, uncommitted, called]
  · refine ⟨⟨rfl, rfl, rfl, rfl, fun {request entry} old => ?_⟩, rfl, rfl⟩
    have earlier := (List.getElem?_eq_some_iff.mp old).1
    rw [getElem?_setRequest, List.getElem?_append_left earlier, old]
    simp [Nat.ne_of_gt earlier]

namespace Adoption

variable {adoption : Adoption} {reserve : Reserve} {rest : List Job}

/-- Without a reserved attempt a request enters the lane. -/
theorem Orderly.enter {next : State} {request : ℕ} (orderly : adoption.Orderly reserve)
    (outcome : adoption.transaction.outcome = none)
    (admits : Admits adoption.transaction next request)
    : Adoption.Orderly reserve
        (Adoption.admitted { adoption with transaction := next } request) := by
  obtain ⟨rfl, noAttempt⟩ := orderly.attempt.free_of_outcome outcome
  have lane := (orderly.lane (by simp)).enter admits
  have unreserved : AttemptAt next .free adoption.attemptJobs := by
    rw [noAttempt]
    exact .unreserved (admits.outcome.trans outcome)
  have pending : next.validationPromise ≠ none := by simp [admits.promise]
  have free : next.outcome = none := admits.outcome.trans outcome
  obtain ⟨query, found⟩ := admits.found
  rw [admitted]
  simp only [found]
  cases tail : adoption.tailSettled with
  | false =>
      rw [tail] at lane
      exact {
        attempt := unreserved
        lane := fun _ => by simpa [laneJobs, tail] using lane
        ready := fun _ promise => absurd promise pending
        idle := by simp
        near := by simp
        joins := fun reserved => absurd free reserved
        ordered := orderly.ordered
      }
  | true =>
      have settled := orderly.lane (by simp)
      rw [tail] at lane settled
      exact {
        attempt := by simpa [attemptJobs, push, Job.isAttempt] using unreserved
        lane := fun _ => by
          have before : adoption.queue.filter Job.isLane = [] := settled.jobs_eq_nil
          have jobs : (adoption.queue ++ [Job.startProof request]).filter Job.isLane
              = [.startProof request] := by
            rw [List.filter_append, before]
            rfl
          have moved : Lane Reserve.free.waits next false
              ((adoption.queue ++ [Job.startProof request]).filter Job.isLane) := jobs.symm ▸ lane
          exact moved
        ready := fun _ promise => absurd promise pending
        idle := by simp
        near := by simp
        joins := fun reserved => absurd free reserved
        ordered := orderly.ordered.push_plain rfl rfl rfl rfl
      }

/-- While an attempt is reserved it has not settled. -/
theorem Orderly.unsettled {attempt : ℕ} (orderly : adoption.Orderly reserve)
    (reserved : adoption.transaction.outcome = some attempt)
    : adoption.transaction.stateValue ≠ .committed
      ∧ adoption.transaction.attempts[attempt]?.any (·.isSettled) = false := by
  have early (notPast : reserve ≠ .past) := (orderly.lane notPast).accepts.2
  have at_ := orderly.attempt
  generalize adoption.attemptJobs = jobs at at_
  cases at_ with
  | unreserved outcome => cases outcome.symm.trans reserved
  | scheduled outcome phase | awaiting outcome phase | resuming outcome phase =>
      obtain rfl := Option.some.inj (outcome.symm.trans reserved)
      exact ⟨early (by simp), by simp [phase, AttemptPhase.isSettled]⟩
  | invoking outcome phase value | failing outcome phase recoverable value =>
      obtain rfl := Option.some.inj (outcome.symm.trans reserved)
      exact ⟨by simp [value], by simp [phase, AttemptPhase.isSettled]⟩

theorem perform_taken (adoption : Adoption) (action : Action) {next : State}
    (taken : step? config adoption.transaction action = some next) (continue_ : Adoption → Adoption)
    : adoption.perform config action continue_
      = continue_ { adoption with transaction := next } := by
  simp only [perform, taken]

/-- A call of `validate` enters the lane or joins the reserved attempt. -/
theorem Orderly.validate (config : Config) (orderly : adoption.Orderly reserve)
    (isOpen : adoption.transaction.isSealed = false) (query : Option ℕ)
    : (adoption.validate config query).Orderly reserve := by
  by_cases able : canRequest adoption.transaction query = true
  case neg =>
    simp only [Adoption.validate, perform, step?, EffectTransaction.validate, if_neg able]
    exact orderly
  cases outcome : adoption.transaction.outcome with
  | none =>
      obtain ⟨rfl, -⟩ := orderly.attempt.free_of_outcome outcome
      obtain ⟨next, taken, admits⟩ :=
        validate_admits able outcome isOpen (orderly.lane (by simp)).accepts.1
      rw [Adoption.validate, perform_taken adoption (.validate query) taken]
      exact orderly.enter outcome admits
  | some attempt =>
      obtain ⟨uncommitted, unsettled⟩ := orderly.unsettled outcome
      obtain ⟨next, taken, grows, joining⟩ := validate_joins able outcome isOpen uncommitted
      rw [Adoption.validate, perform_taken adoption (.validate query) taken, admitted]
      rw [← grows.attempts] at unsettled
      simp only [joining, unsettled]
      exact orderly.grows grows rfl rfl

end Adoption

-- Continuations of the lane

theorem Line.pending {first : ℕ} {rest : List ℕ} (line : Line state first rest)
    : state.validationPromise ≠ none := by
  simp [line.last]

theorem Steady.refl (state : State) : Steady state state :=
  ⟨rfl, rfl, fun _ => id⟩

section LaneJobs

variable {waits : ℕ → List ℕ} {state : State} {tail : Bool} {request : ℕ} {more : List Job}

/-- The lane calls the operation of a request. -/
theorem Lane.startProof (lane : Lane waits state tail (.startProof request :: more))
    : state.validationPromise ≠ none
      ∧ ∃ next,
          startProof state request = some next
          ∧ Lane waits next tail more
          ∧ Steady state next
          ∧ next.validationPromise = state.validationPromise := by
  cases lane with
  | queued line lane found value =>
      refine ⟨line.pending, ?_⟩
      obtain ⟨released, started⟩ := startProof_eq (by simp [lane]) found value
      refine ⟨_, started, ?_, .of_setRequest rfl rfl rfl found (by simp [RequestPhase.isResolved]),
        rfl⟩
      refine .proving (line.move rfl rfl) lane (setRequest_found found (.proving released)) ?_ ?_
        (.inl rfl)
      · rintro rfl
        rfl
      · intro borrowed
        simpa [Resting, borrowed] using value
  | proving line lane found source borrowed pending => simp at pending
  | proved line lane found value recorded pending => simp at pending

/-- A proof that is recorded leaves the state resting, and ready when it is valid. -/
theorem recordProof_authority {query : Option ℕ} {result : ResourceValidation}
    (source : query = none → state.stateValue = .validating)
    (borrowed : query ≠ none → Resting state)
    : Resting (recordProof state query result)
      ∧ (query = none → result.isValid = true → Ready (recordProof state query result)) := by
  cases query with
  | some query => exact ⟨(borrowed (by simp)).of_eq rfl, by simp⟩
  | none =>
      have value : (recordProof state none result).stateValue = provedValue .validating result := by
        rw [← source rfl]
        rfl
      refine ⟨?_, fun _ valid => ⟨valid, ?_⟩⟩
      · rw [Resting, value, provedValue, if_pos rfl]
        split
        · exact .inr rfl
        · exact .inl rfl
      · rw [value, provedValue, if_pos rfl, if_pos valid]

/-- The operation resumes behind its proof and records the result. -/
theorem Lane.finishProof (config : Config) {returned : Except String ResourceValidation}
    (lane : Lane waits state tail (.finishProof request returned :: more))
    : state.validationPromise ≠ none
      ∧ ∃ next,
          finishProof config state request returned = some next
          ∧ Lane waits next tail (more ++ [.settleProof request])
          ∧ Steady state next
          ∧ next.validationPromise = state.validationPromise := by
  cases lane with
  | @proving first rest query released pending line lane found source borrowed jobs =>
      rcases jobs with none_ | ⟨answer, same⟩
      · cases none_
      cases same
      let result := proofResult config query released returned
      let recorded := recordProof state query result
      let next : State :=
        { recorded.setRequest request (.proved result) with lane := state.lane.tail }
      have finished : EffectTransaction.finishProof config state request returned = some next := by
        rw [EffectTransaction.finishProof, found]
      have moved : next.requests = (state.setRequest request (.proved result)).requests := by
        cases query <;> rfl
      have promise : next.validationPromise = state.validationPromise := by cases query <;> rfl
      have behind : next.lane = rest.map .validate := congrArg List.tail lane
      have now : next.requests[request]? = some ⟨query, .proved result⟩ :=
        moved ▸ setRequest_found found _
      obtain ⟨resting, ready⟩ := recordProof_authority source borrowed
      refine ⟨line.pending, next, finished,
        .proved (line.move moved promise) behind now resting
          (fun own valid => ⟨(ready own valid).valid, (ready own valid).validated⟩) (.inl rfl),
        .of_setRequest ?_ ?_ moved found (by simp [RequestPhase.isResolved]), promise⟩
      · cases query <;> rfl
      · cases query <;> rfl
  | proved line lane found value recorded pending => simp at pending

/-- The promise of the request settles for the attempts that await it. -/
theorem Lane.settleProof (lane : Lane waits state tail (.settleProof request :: more))
    : state.validationPromise ≠ none
      ∧ Lane waits state tail (more ++ [.proofSettled request (waits request)]) := by
  cases lane with
  | proving line lane found source borrowed pending => simp at pending
  | proved line lane found value recorded pending =>
      rcases pending with same | same
      · cases same
        exact ⟨line.pending, .proved line lane found value recorded (.inr rfl)⟩
      · cases same

end LaneJobs

/-- Only the reserved attempt awaits a promise. -/
theorem AttemptAt.waiting_eq (attempt : AttemptAt state reserve jobs)
    (notResuming : reserve ≠ .resumes)
    (sole
      : ∀ attempt phase,
          state.attempts[attempt]? = some phase
          → phase.isSettled = false → state.outcome = some attempt)
    (request : ℕ)
    : Adoption.waiting state request = reserve.waits request := by
  have reserved (attempt : ℕ) (awaits : state.attempts[attempt]? = some (.awaiting (some request)))
      : state.outcome = some attempt :=
    sole attempt _ awaits rfl
  have nobody {current : ℕ} {phase : AttemptPhase} (outcome : state.outcome = some current)
      (found : state.attempts[current]? = some phase) (other : phase ≠ .awaiting (some request))
      : Adoption.waiting state request = [] := by
    refine List.filter_eq_nil_iff.mpr fun attempt _ awaits => ?_
    have awaits := of_decide_eq_true awaits
    obtain rfl := Option.some.inj (outcome.symm.trans (reserved attempt awaits))
    exact other (Option.some.inj (found.symm.trans awaits))
  cases attempt with
  | unreserved outcome =>
      refine List.filter_eq_nil_iff.mpr fun attempt _ awaits => ?_
      cases outcome.symm.trans (reserved attempt (of_decide_eq_true awaits))
  | scheduled outcome phase => exact nobody outcome phase (by simp)
  | @awaiting current awaited outcome phase pending =>
      by_cases same : request = awaited
      · subst same
        rw [Reserve.waits, if_pos rfl]
        have alone (attempt : ℕ) (_ : attempt ∈ List.range state.attempts.length)
            : decide (state.attempts[attempt]? = some (.awaiting (some request)))
              = (attempt == current) := by
          by_cases same : attempt = current
          · simp [same, phase]
          · have other : state.attempts[attempt]? ≠ some (.awaiting (some request)) :=
              fun awaits => same (Option.some.inj ((reserved attempt awaits).symm.trans outcome))
            simp [same, other]
        have inside := (List.getElem?_eq_some_iff.mp phase).1
        rw [Adoption.waiting, List.filter_congr alone, List.filter_beq,
          List.count_eq_one_of_mem List.nodup_range (List.mem_range.mpr inside)]
        rfl
      · rw [Reserve.waits, if_neg same]
        refine nobody outcome phase fun awaits => ?_
        cases awaits
        exact same rfl
  | resuming => exact absurd rfl notResuming
  | invoking outcome phase => exact nobody outcome phase (by simp)
  | failing outcome phase => exact nobody outcome phase (by simp)

theorem AttemptAt.notResumes (attempt : AttemptAt state reserve jobs)
    (notResuming : reserve ≠ .resumes)
    : ∀ job ∈ jobs, job.resumesIn = none := by
  cases attempt with
  | unreserved | awaiting => simp
  | scheduled => simp [Job.resumesIn]
  | resuming => exact absurd rfl notResuming
  | invoking outcome phase value answer =>
      rcases answer with rfl | ⟨result, rfl⟩ <;> simp [Job.resumesIn]
  | failing outcome phase recoverable value withdrawal =>
      rcases withdrawal with rfl | rfl <;> simp [Job.resumesIn]

namespace Adoption

variable {adoption : Adoption} {reserve : Reserve} {rest : List Job} {job : Job} {request : ℕ}

theorem laneJobs_cons (queue : adoption.queue = job :: rest) (lane : job.isLane = true)
    : adoption.laneJobs = job :: rest.filter Job.isLane := by
  simp [laneJobs, queue, lane]

theorem attemptJobs_cons (queue : adoption.queue = job :: rest) (attempt : job.isAttempt = true)
    : adoption.attemptJobs = job :: rest.filter Job.isAttempt := by
  simp [attemptJobs, queue, attempt]

theorem attemptJobs_skip (queue : adoption.queue = job :: rest) (attempt : job.isAttempt = false)
    : adoption.attemptJobs = rest.filter Job.isAttempt := by
  simp [attemptJobs, queue, attempt]

theorem laneJobs_skip (queue : adoption.queue = job :: rest) (lane : job.isLane = false)
    : adoption.laneJobs = rest.filter Job.isLane := by
  simp [laneJobs, queue, lane]

section

variable (orderly : adoption.Orderly reserve)

include orderly

/-- No attempt is past its check while the lane works. -/
theorem Orderly.early (queue : adoption.queue = job :: rest) (lane : job.isLane = true)
    : reserve ≠ .past := by
  intro past
  have jobs := (orderly.idle past).jobs
  rw [laneJobs_cons queue lane] at jobs
  exact List.cons_ne_nil _ _ jobs

/-- An attempt only resumes behind the last proof. -/
theorem Orderly.notResuming (queue : adoption.queue = job :: rest) (lane : job.isLane = true)
    (returns : job.returnsIn = none) (pending : adoption.transaction.validationPromise ≠ none)
    : reserve ≠ .resumes := by
  intro resumes
  obtain ⟨-, promise | ⟨request, jobs⟩⟩ := orderly.near resumes
  · exact pending promise
  · rw [laneJobs_cons queue lane] at jobs
    obtain ⟨rfl, -⟩ := List.cons.inj jobs
    cases returns

/-- The lane moves on and a validation stays pending. -/
theorem Orderly.move {next : State} {queue : List Job} (early : reserve ≠ .past)
    (notResuming : reserve ≠ .resumes) (steady : Steady adoption.transaction next)
    (promise : next.validationPromise = adoption.transaction.validationPromise)
    (pending : adoption.transaction.validationPromise ≠ none)
    (lane : Lane reserve.waits next adoption.tailSettled (queue.filter Job.isLane))
    (attempt : queue.filter Job.isAttempt = adoption.attemptJobs)
    (admits
      : ∀ job ∈ queue, job.admitsIn ≠ none → job ∈ adoption.queue)
    (ordered : Ordered queue)
    : Adoption.Orderly reserve { adoption with transaction := next, queue } where
  attempt := by
    have moved := orderly.attempt.steady steady (.inr early) (.inl promise)
    rw [← attempt] at moved
    exact moved
  lane _ := lane
  ready _ withdrawn := absurd (promise.symm.trans withdrawn) pending
  idle past := absurd past early
  near resumes := absurd resumes notResuming
  joins reserved job member := by
    by_contra follows
    exact follows (orderly.joins (steady.outcome ▸ reserved) job (admits job member follows))
  ordered := ordered

/-- The lane calls the operation of a request. -/
theorem Orderly.startProof (queue : adoption.queue = .startProof request :: rest)
    : Adoption.Orderly reserve
        (Adoption.perform config { adoption with queue := rest } (.startProof request) id) := by
  have early := orderly.early queue rfl
  have lane := orderly.lane early
  rw [laneJobs_cons queue rfl] at lane
  obtain ⟨pending, next, taken, started, steady, promise⟩ := lane.startProof
  rw [perform_taken { adoption with queue := rest } (.startProof request) taken]
  refine orderly.move early (orderly.notResuming queue rfl rfl pending) steady promise pending
    started (attemptJobs_skip queue rfl).symm ?_ (queue ▸ orderly.ordered).tail
  exact fun job member _ => by simp [queue, member]

/-- A continuation of the lane goes on to the next one. -/
theorem Orderly.moveOn {next : State} {after : Job} (queue : adoption.queue = job :: rest)
    (isLane : job.isLane = true) (returns : job.returnsIn = none)
    (steady : Steady adoption.transaction next)
    (promise : next.validationPromise = adoption.transaction.validationPromise)
    (pending : adoption.transaction.validationPromise ≠ none)
    (lane : Lane reserve.waits next adoption.tailSettled (rest.filter Job.isLane ++ [after]))
    (afterLane : after.isLane = true) (attempt : job.isAttempt = false ∧ after.isAttempt = false)
    (admits : after.admitsIn = none) (ordered : Ordered (rest ++ [after]))
    : Adoption.Orderly reserve
        { adoption with transaction := next, queue := rest ++ [after] } := by
  refine orderly.move (orderly.early queue isLane)
    (orderly.notResuming queue isLane returns pending) steady promise pending ?_ ?_ ?_ ordered
  · simpa [afterLane] using lane
  · simp [attemptJobs_skip queue attempt.1, attempt.2]
  · intro other member follows
    rcases List.mem_append.mp member with before | last
    · simp [queue, before]
    · obtain rfl := List.mem_singleton.mp last
      exact absurd admits follows

/-- The operation resumes behind its proof and records the result. -/
theorem Orderly.finishProof {returned : Except String ResourceValidation}
    (queue : adoption.queue = .finishProof request returned :: rest)
    : Adoption.Orderly reserve
        (Adoption.perform config { adoption with queue := rest } (.finishProof request returned)
          (·.push [.settleProof request])) := by
  have lane := orderly.lane (orderly.early queue rfl)
  rw [laneJobs_cons queue rfl] at lane
  obtain ⟨pending, next, taken, proved, steady, promise⟩ := lane.finishProof config
  rw [perform_taken { adoption with queue := rest } (.finishProof request returned) taken]
  refine orderly.moveOn queue rfl rfl steady promise pending proved rfl ⟨rfl, rfl⟩ rfl ?_
  have ordered : Ordered (.finishProof request returned :: rest) := queue ▸ orderly.ordered
  exact ordered.rotate ⟨by simp [Job.adoptsIn]⟩ ⟨by simp [Job.withdrawsIn]⟩
    ⟨by simp [Job.admitsIn]⟩ rfl rfl

/-- The promise of a request settles. -/
theorem Orderly.settleProof (queue : adoption.queue = .settleProof request :: rest)
    (sole
      : ∀ attempt phase,
          adoption.transaction.attempts[attempt]? = some phase
          → phase.isSettled = false → adoption.transaction.outcome = some attempt)
    : Adoption.Orderly reserve
        (Adoption.push { adoption with queue := rest }
          [.proofSettled request (waiting adoption.transaction request)]) := by
  have lane := orderly.lane (orderly.early queue rfl)
  rw [laneJobs_cons queue rfl] at lane
  obtain ⟨pending, settled⟩ := lane.settleProof
  have notResuming := orderly.notResuming queue rfl rfl pending
  rw [orderly.attempt.waiting_eq notResuming sole]
  refine orderly.moveOn queue rfl rfl (.refl _) rfl pending settled rfl ⟨rfl, rfl⟩ rfl ?_
  have ordered : Ordered (.settleProof request :: rest) := queue ▸ orderly.ordered
  refine ordered.settle fun other member => ?_
  by_cases attempt : other.isAttempt = true
  · refine orderly.attempt.notResumes notResuming other ?_
    exact List.mem_filter.mpr ⟨by simp [queue, member], attempt⟩
  · cases other <;> simp [Job.isAttempt] at attempt <;> rfl

end

end Adoption

end SpeculativeAction.EffectTransaction
