import SpeculativeAction.EffectTransaction.AdoptionLane

/-! A commit attempt of an open transaction stays in order, from the adoption that reserves it to
its effect or to the failure that withdraws it.
-/

namespace SpeculativeAction.EffectTransaction

open SpeculativeAction.Library

variable {config : Config} {state : State} {reserve : Reserve} {attempt : ℕ} {more : List Job}

-- Adoptions

/-- A commit call that starts no attempt is only recorded. -/
theorem commit_grows {call : CommitCall} (decided : commitCall config state = some call)
    : Grows state (commit config state) := by
  simp only [commit, decided]
  exact ⟨⟨rfl, rfl, rfl, rfl, id⟩, rfl, rfl⟩

/-- An attempt starts only while none is reserved. -/
theorem outcome_of_commitCall (starts : commitCall config state = none)
    : state.outcome = none := by
  rw [commitCall] at starts
  split at starts
  · cases starts
  · split at starts
    · cases starts
    · assumption

namespace Adoption

variable {adoption : Adoption} {reserve : Reserve} {rest : List Job} {actor : ℕ}

/-- An Actor that is about to adopt never finds its authority gone. -/
theorem Orderly.authorised (orderly : adoption.Orderly reserve) {job : Job}
    (member : job ∈ adoption.queue) (follows : job.adoptsIn ≠ none)
    : isUnvalidated config adoption.transaction = false := by
  cases outcome : adoption.transaction.outcome with
  | some attempt => simp [isUnvalidated, outcome]
  | none =>
      obtain ⟨rfl, -⟩ := orderly.attempt.free_of_outcome outcome
      cases promise : adoption.transaction.validationPromise with
      | some request => simp [isUnvalidated, promise]
      | none =>
          have ready := orderly.ready (by simp) promise job member follows
          simp [isUnvalidated, ready.valid]

/-- The Actor call commits: it joins the reserved attempt or reserves a new one. -/
theorem Orderly.adopt (orderly : adoption.Orderly reserve)
    (queue : adoption.queue = .selectActorCandidate actor :: rest)
    : Adoption.Orderly reserve (Adoption.adopt config { adoption with queue := rest } actor) := by
  let popped : Adoption := { adoption with queue := rest }
  have dropped : popped.Orderly reserve := orderly.drop queue rfl rfl
  by_cases able : popped.canAdopt actor = true
  case neg =>
    rw [Adoption.adopt, if_neg able]
    exact dropped
  have transaction : (popped.adopt config actor).transaction = commit config popped.transaction :=
    adopt_transaction able
  cases decided : commitCall config popped.transaction with
  | some call =>
      have called : (popped.adopt config actor).queue = popped.queue
          ∧ (popped.adopt config actor).tailSettled = popped.tailSettled := by
        simp [Adoption.adopt, able, decided]
      exact dropped.grows (transaction ▸ commit_grows decided) called.1 called.2
  | none =>
      have unreserved := outcome_of_commitCall decided
      obtain ⟨rfl, noAttempt⟩ := dropped.attempt.free_of_outcome unreserved
      let attempt := popped.transaction.attempts.length
      let next : State := {
        popped.transaction with
        outcome := some attempt
        attempts := popped.transaction.attempts ++ [.scheduled]
        commits := popped.transaction.commits ++ [.joined attempt]
      }
      have reserved : popped.adopt config actor
          = {
            transaction := next
            actors := (popped.adopt config actor).actors
            queue := rest ++ [.startAttempt attempt]
            tailSettled := popped.tailSettled
          } := by
        simp [Adoption.adopt, able, decided, commit, push, popped, attempt, next]
      have scheduled : AttemptAt next .free [.startAttempt attempt] :=
        .scheduled rfl List.getElem?_concat_length
      have kept : LaneKept popped.transaction next := ⟨rfl, rfl, rfl, rfl, id⟩
      have ordered : Ordered (.selectActorCandidate actor :: rest) := queue ▸ orderly.ordered
      rw [reserved]
      exact {
        attempt := by
          have before : rest.filter Job.isAttempt = [] := noAttempt
          rw [attemptJobs, List.filter_append, before]
          exact scheduled
        lane := fun early => by
          simpa [laneJobs, Job.isLane] using (dropped.lane early).kept kept
        ready := fun early promise job member follows => by
          rcases List.mem_append.mp member with before | last
          · exact (dropped.ready early promise job before follows).kept kept
          · obtain rfl := List.mem_singleton.mp last
            exact absurd rfl follows
        idle := by simp
        near := by simp
        joins := fun _ => List.forall_mem_append.mpr
          ⟨ordered.admissions.none_left rfl, List.forall_mem_singleton.mpr rfl⟩
        ordered := ordered.tail.push_plain rfl rfl rfl rfl
      }

end Adoption

-- Continuations of the attempt

/-- A request with another one behind it is not the last. -/
theorem Line.last_ne {first second : ℕ} {rest later : List ℕ} (line : Line state first rest)
    (behind : rest = second :: later)
    : state.validationPromise ≠ some first := by
  rw [line.last, behind, List.getLast?_cons_cons]
  intro last
  exact (List.nodup_cons.mp line.distinct).1 (behind ▸ List.mem_of_getLast? last)

section LaneReads

variable {waits : ℕ → List ℕ} {state : State} {tail : Bool} {jobs : List Job}

/-- Without a pending validation the lane is idle. -/
theorem Lane.idle_of_promise (lane : Lane waits state tail jobs)
    (promise : state.validationPromise = none)
    : state.lane = [] ∧ tail = true ∧ jobs = [] := by
  cases lane with
  | idle lane => exact ⟨lane, rfl, rfl⟩
  | queued line | proving line | proved line => exact absurd promise line.pending

/-- A promise that has settled is the one of the first request. -/
theorem Lane.of_settled {request : ℕ} {attempts : List ℕ} (lane : Lane waits state tail jobs)
    (member : .proofSettled request attempts ∈ jobs)
    : jobs = [.proofSettled request (waits request)]
      ∧ state.hasResolved request = true
      ∧ (state.validationPromise = some request → state.lane = []) := by
  cases lane with
  | idle => cases member
  | queued => simp at member
  | proving line lane found source borrowed pending =>
      rcases pending with rfl | ⟨returned, rfl⟩ <;> simp at member
  | @proved first rest query validation pending line lane found value recorded jobs =>
      rcases jobs with rfl | rfl
      · simp at member
      obtain ⟨rfl, rfl⟩ : request = first ∧ attempts = waits first := by simpa using member
      refine ⟨rfl, by simp [State.hasResolved, found, RequestPhase.isResolved], fun promise => ?_⟩
      cases rest with
      | nil => exact lane
      | cons second more => exact absurd promise (line.last_ne rfl)

/-- The lane only looks at who awaits a promise that has settled. -/
theorem Lane.rewait {others : ℕ → List ℕ} (lane : Lane waits state tail jobs)
    (same
      : ∀ request attempts,
          .proofSettled request attempts ∈ jobs → others request = waits request)
    : Lane others state tail jobs := by
  cases lane with
  | idle lane promise value => exact .idle lane promise value
  | queued line lane found value => exact .queued line lane found value
  | proving line lane found source borrowed pending =>
      exact .proving line lane found source borrowed pending
  | proved line lane found value recorded pending =>
      refine .proved line lane found value recorded (pending.imp_right ?_)
      rintro rfl
      rw [same _ _ (List.mem_singleton.mpr rfl)]

end LaneReads

theorem AttemptAt.startAttempt (at_ : AttemptAt state reserve (.startAttempt attempt :: more))
    : reserve = .free
      ∧ more = []
      ∧ state.outcome = some attempt
      ∧ state.attempts[attempt]? = some .scheduled := by
  cases at_ with
  | scheduled outcome phase => exact ⟨rfl, rfl, outcome, phase⟩
  | invoking outcome phase value answer => simp at answer
  | failing outcome phase recoverable value withdrawal => simp at withdrawal

theorem AttemptAt.resumeAttempt (at_ : AttemptAt state reserve (.resumeAttempt attempt :: more))
    : reserve = .resumes
      ∧ more = []
      ∧ state.outcome = some attempt
      ∧ ∃ awaited,
          state.attempts[attempt]? = some (.awaiting awaited)
          ∧ awaited.all state.hasResolved = true := by
  cases at_ with
  | resuming outcome phase resolved => exact ⟨rfl, rfl, outcome, _, phase, resolved⟩
  | invoking outcome phase value answer => simp at answer
  | failing outcome phase recoverable value withdrawal => simp at withdrawal

theorem setAttempt_found {phase : AttemptPhase} (found : state.attempts[attempt]? = some phase)
    (after : AttemptPhase)
    : (state.setAttempt attempt after).attempts[attempt]? = some after :=
  List.getElem?_set_self (List.getElem?_eq_some_iff.mp found).1

namespace Adoption

variable {adoption : Adoption} {reserve : Reserve} {rest : List Job} {attempt : ℕ}

/-- The reserved attempt moves before its check. -/
theorem Orderly.reattempt {next : State} {queue : List Job} {after : Reserve}
    (orderly : adoption.Orderly reserve) (early : reserve ≠ .past) (afterEarly : after ≠ .past)
    (reserved : adoption.transaction.outcome ≠ none) (kept : LaneKept adoption.transaction next)
    (attempt : AttemptAt next after (queue.filter Job.isAttempt))
    (lane : Lane after.waits adoption.transaction adoption.tailSettled (queue.filter Job.isLane))
    (near
      : after = .resumes →
          adoption.transaction.lane = []
          ∧ (adoption.transaction.validationPromise = none
            ∨ ∃ request, queue.filter Job.isLane = [.proofSettled request []]))
    (subset
      : ∀ job ∈ queue, job ∈ adoption.queue ∨ job.adoptsIn = none ∧ job.admitsIn = none)
    (ordered : Ordered queue)
    : Adoption.Orderly after { adoption with transaction := next, queue } where
  attempt := attempt
  lane _ := lane.kept kept
  ready _ promise job member follows := by
    rcases subset job member with before | ⟨adopts, -⟩
    · exact (orderly.ready early (kept.validationPromise.symm.trans promise) job before
        follows).kept kept
    · exact absurd adopts follows
  idle past := absurd past afterEarly
  near resumes := by
    rw [kept.lane, kept.validationPromise]
    exact near resumes
  joins _ job member := by
    rcases subset job member with before | ⟨-, admits⟩
    · exact orderly.joins reserved job before
    · exact admits
  ordered := ordered

theorem hasSettled_iff (adoption : Adoption) (request : ℕ)
    : adoption.hasSettled request = true
      ↔ ∃ attempts, .proofSettled request attempts ∈ adoption.queue := by
  rw [hasSettled, List.any_eq_true]
  constructor
  · rintro ⟨job, member, settled⟩
    cases job <;> simp at settled
    exact ⟨_, settled ▸ member⟩
  · rintro ⟨attempts, member⟩
    exact ⟨_, member, by simp⟩

/-- An attempt starts to await the pending validation. -/
theorem Orderly.startAttempt (orderly : adoption.Orderly reserve)
    (queue : adoption.queue = .startAttempt attempt :: rest)
    : ∃ after,
        Adoption.Orderly after
          (Adoption.startAttempt config { adoption with queue := rest } attempt) := by
  have at_ := orderly.attempt
  rw [attemptJobs_cons queue rfl] at at_
  obtain ⟨rfl, noJobs, outcome, phase⟩ := at_.startAttempt
  have lane := orderly.lane (by simp)
  rw [laneJobs_skip queue rfl] at lane
  let state := adoption.transaction
  let next := state.setAttempt attempt (.awaiting state.validationPromise)
  have found := setAttempt_found phase (.awaiting state.validationPromise)
  have kept : LaneKept state next := ⟨rfl, rfl, rfl, rfl, id⟩
  have ordered : Ordered rest := (queue ▸ orderly.ordered).tail
  have taken : step? config state (.startAttempt attempt) = some next := by
    simp [step?, EffectTransaction.startAttempt, state, phase, next]
  have reserved : state.outcome ≠ none := by simp [state, outcome]
  -- The attempt resumes with its next continuation.
  have resumes (resolved : state.validationPromise.all state.hasResolved = true)
      (near : state.lane = []
        ∧ (state.validationPromise = none
          ∨ ∃ request, rest.filter Job.isLane = [.proofSettled request []]))
      : Adoption.Orderly .resumes
          { adoption with transaction := next, queue := rest ++ [.resumeAttempt attempt] } := by
    have jobs : (rest ++ [Job.resumeAttempt attempt]).filter Job.isLane
        = rest.filter Job.isLane := by simp [Job.isLane]
    refine orderly.reattempt (by simp) (by simp) reserved kept ?_ ?_ ?_ ?_
      (ordered.push_plain rfl rfl rfl rfl)
    · rw [List.filter_append, noJobs]
      exact .resuming outcome found resolved
    · rw [jobs]
      exact lane.rewait fun _ _ _ => rfl
    · rw [jobs]
      exact fun _ => near
    · intro job member
      rcases List.mem_append.mp member with before | last
      · exact .inl (by simp [queue, before])
      · obtain rfl := List.mem_singleton.mp last
        exact .inr ⟨rfl, rfl⟩
  rw [Adoption.startAttempt, perform_taken { adoption with queue := rest } _ taken]
  cases promise : state.validationPromise with
  | none =>
      have pending : next.validationPromise = none := promise
      simp only [pending]
      have idle := (lane.idle_of_promise promise).1
      exact ⟨.resumes, resumes (by simp [promise]) ⟨idle, .inl promise⟩⟩
  | some request =>
      have pending : next.validationPromise = some request := promise
      simp only [pending]
      split
      next settled =>
        obtain ⟨attempts, member⟩ := (hasSettled_iff _ request).mp settled
        obtain ⟨only, resolved, last⟩ :=
          lane.of_settled (List.mem_filter.mpr ⟨member, rfl⟩)
        exact ⟨.resumes, resumes (by simpa [promise] using resolved)
          ⟨last promise, .inr ⟨request, only⟩⟩⟩
      next unsettled =>
        refine ⟨.awaits attempt request,
          orderly.reattempt (by simp) (by simp) reserved kept ?_ ?_ (by simp)
            (fun job member => .inl (by simp [queue, member])) ordered⟩
        · rw [noJobs]
          exact .awaiting outcome (promise ▸ found) pending
        · refine lane.rewait fun other attempts member => ?_
          have different : other ≠ request := by
            rintro rfl
            exact unsettled ((hasSettled_iff _ _).mpr ⟨attempts, List.mem_of_mem_filter member⟩)
          simp [Reserve.waits, different]

end Adoption

-- The check of the attempt and its settlement

/-- The attempt calls the backend exactly when a commit is authorised; else it fails before it. -/
theorem resumeAttempt_cases {awaited : Option ℕ} (config : Config)
    (found : state.attempts[attempt]? = some (.awaiting awaited))
    (resolved : awaited.all state.hasResolved = true)
    : (∃ calls,
        resumeAttempt config state attempt
          = some { state.setAttempt attempt .invoking with stateValue := .committing, calls })
      ∨ ¬ Ready state
        ∧ ∃ failure : EffectCommitFailure,
            failure.disposition = .recoverable
            ∧ resumeAttempt config state attempt
              = some {
                  state.setAttempt attempt (.applied (.error (.failure failure))) with
                  stateValue := .sealed
                  validation := none
                } := by
  have settled : (awaited.all fun request =>
      state.requests[request]?.any (·.phase.isResolved)) = true := resolved
  by_cases ready : (state.latestValid && state.stateValue == .validated) = true
  · refine .inl ⟨state.calls ++ [.commitStarted attempt state.stateValue], ?_⟩
    simp only [resumeAttempt, found, settled, ready]
    rfl
  · refine .inr ⟨fun now => ready (by simp [now.valid, now.validated]),
      unauthorisedFailure config state, rfl, ?_⟩
    simp only [resumeAttempt, found, settled, ready]
    rfl

namespace Adoption

variable {adoption : Adoption} {reserve : Reserve} {rest : List Job} {attempt : ℕ}

/-- An attempt whose proof has resolved, while no validation is requested any more. -/
structure Resumable (adoption : Adoption) (attempt : ℕ) : Prop where
  outcome : adoption.transaction.outcome = some attempt
  awaiting
    : ∃ awaited,
        adoption.transaction.attempts[attempt]? = some (.awaiting awaited)
        ∧ awaited.all adoption.transaction.hasResolved = true
  jobs : adoption.attemptJobs = []
  idle : adoption.Idle
  ready : ∀ job ∈ adoption.queue, job.adoptsIn ≠ none → Ready adoption.transaction
  joins : ∀ job ∈ adoption.queue, job.admitsIn = none
  ordered : Ordered adoption.queue

/-- An attempt that resumes calls the backend, or it is about to be withdrawn. -/
theorem Resumable.resumeAttempt (resumable : adoption.Resumable attempt)
    : Adoption.Orderly .past (adoption.resumeAttempt config attempt) := by
  obtain ⟨outcome, ⟨awaited, found, resolved⟩, noJobs, idle, ready, joins, ordered⟩ := resumable
  rcases resumeAttempt_cases config found resolved with
    ⟨calls, taken⟩ | ⟨unready, failure, recoverable, taken⟩
  · have invoking := setAttempt_found found .invoking
    rw [Adoption.resumeAttempt, perform_taken adoption (.resumeAttempt attempt) taken]
    simp only [invoking]
    exact {
      attempt := noJobs ▸ .invoking outcome invoking rfl (.inl rfl)
      lane := by simp
      ready := by simp
      idle := fun _ => ⟨idle.lane, idle.promise, idle.tail, idle.jobs⟩
      near := by simp
      joins := fun _ => joins
      ordered
    }
  · have applied := setAttempt_found found (.applied (.error (.failure failure)))
    have nobody : ∀ job ∈ adoption.queue, job.adoptsIn = none := by
      intro job member
      by_contra follows
      exact unready (ready job member follows)
    have jobs : (adoption.queue ++ [Job.relayAttempt attempt]).filter Job.isAttempt
        = [.relayAttempt attempt] := by
      rw [List.filter_append, show adoption.queue.filter Job.isAttempt = [] from noJobs]
      rfl
    rw [Adoption.resumeAttempt, perform_taken adoption (.resumeAttempt attempt) taken]
    simp only [applied]
    exact {
      attempt := by
        change AttemptAt _ _ ((adoption.queue ++ [Job.relayAttempt attempt]).filter _)
        rw [jobs]
        exact .failing outcome applied recoverable rfl (.inl rfl)
      lane := by simp
      ready := by simp
      idle := fun _ =>
        ⟨idle.lane, idle.promise, idle.tail, by simpa [laneJobs, push, Job.isLane] using idle.jobs⟩
      near := by simp
      joins := fun _ => List.forall_mem_append.mpr ⟨joins, List.forall_mem_singleton.mpr rfl⟩
      ordered := ordered.push_withdrawal rfl nobody rfl rfl rfl
    }

end Adoption

-- A promise that settles

/-- The continuation that the lane waits for behind a proof: the next operation, if there is one. -/
def nextProof (rest : List ℕ) : List Job := (rest.head?.map Job.startProof).toList

/-- The reactions to the promise of a request: its caller resumes and the lane moves on. The
validation stays pending while requests wait behind it.
-/
theorem Lane.proofSettled {waits : ℕ → List ℕ} {tail : Bool} {request : ℕ} {attempts : List ℕ}
    (lane : Lane waits state tail (.proofSettled request attempts :: more))
    : attempts = waits request
      ∧ tail = false
      ∧ more = []
      ∧ ∃ behind query validation next,
          Line state request behind
          ∧ state.lane = behind.map .validate
          ∧ returnValidation state request = some next
          ∧ Lane waits next behind.isEmpty (nextProof behind)
          ∧ Steady state next
          ∧ next.validationPromise = (if behind = [] then none else state.validationPromise)
          ∧ next.requests[request]? = some ⟨query, .returned validation⟩
          ∧ (query = none → validation.isValid = true → Ready next)
          ∧ next.lane = state.lane := by
  cases lane with
  | proving line lane found source borrowed pending => simp at pending
  | @proved first rest query validation pending line lane found value recorded jobs =>
      rcases jobs with same | same
      · cases same
      cases same
      let next : State := {
        state.setRequest request (.returned validation) with
        validationPromise :=
          if state.validationPromise = some request then none else state.validationPromise
      }
      have returned : returnValidation state request = some next := by
        rw [returnValidation, found]
      have withdrawn
          : next.validationPromise = if rest = [] then none else state.validationPromise := by
        change (if state.validationPromise = some request then none else _) = _
        cases rest with
        | nil => rw [line.last, List.getLast?_singleton, if_pos rfl, if_pos rfl]
        | cons second later =>
            rw [if_neg (line.last_ne rfl), if_neg (List.cons_ne_nil _ _)]
      refine ⟨rfl, rfl, rfl, rest, query, validation, next, line, lane, returned, ?_,
        .of_setRequest rfl rfl rfl found fun _ => rfl, withdrawn, setRequest_found found _,
        fun own valid => ⟨(recorded own valid).valid, (recorded own valid).validated⟩, rfl⟩
      cases rest with
      | nil => exact .idle lane withdrawn value
      | cons second later =>
          have moved : Line next request (second :: later) := line.move rfl withdrawn
          have onwards : Line next second later :=
            ⟨(List.nodup_cons.mp moved.distinct).2,
              fun other member => moved.queued other (List.mem_cons_of_mem _ member),
              moved.last.trans List.getLast?_cons_cons⟩
          obtain ⟨query, waiting⟩ := moved.queued second List.mem_cons_self
          exact .queued onwards lane waiting value

/-- Only continuations of the lane and of the attempt withdraw an authority. -/
theorem Job.withdrawsIn_eq_none (job : Job) (lane : ¬ job.isLane = true)
    (attempt : job.isAttempt = true → job.withdrawsIn = none)
    : job.withdrawsIn = none := by
  cases job with
  | finishProof | settleProof | proofSettled => exact absurd rfl lane
  | finishCommit | relayAttempt | settleAttempt => exact attempt rfl
  | _ => rfl

theorem AttemptAt.notWithdraws {jobs : List Job} (attempt : AttemptAt state reserve jobs)
    (early : reserve ≠ .past)
    : ∀ job ∈ jobs, job.withdrawsIn = none := by
  cases attempt with
  | unreserved | awaiting => simp
  | scheduled | resuming => simp [Job.withdrawsIn]
  | invoking | failing => exact absurd rfl early

namespace Adoption

variable {adoption : Adoption} {reserve : Reserve} {rest : List Job} {request : ℕ}

/-- Behind a settled promise its caller has resumed, and what awaited it has not. -/
structure Returned (reserve : Reserve) (request : ℕ) (adoption next : Adoption) : Prop where
  steady : Steady adoption.transaction next.transaction
  lane : Lane reserve.waits next.transaction next.tailSettled next.laneJobs
  attempts : next.attemptJobs = adoption.attemptJobs
  ready
    : next.transaction.validationPromise = none →
        ∀ job ∈ next.queue, job.adoptsIn ≠ none → Ready next.transaction
  joins : next.transaction.outcome ≠ none → ∀ job ∈ next.queue, job.admitsIn = none
  ordered : Ordered next.queue
  kept : next.transaction.lane = adoption.transaction.lane
  resolved : next.transaction.hasResolved request = true
  /-- Only the last request of the line withdraws the promise. -/
  promise
    : adoption.transaction.validationPromise = some request
        ∧ next.transaction.validationPromise = none
      ∨ adoption.transaction.lane ≠ []
        ∧ adoption.transaction.validationPromise ≠ some request
        ∧ next.transaction.validationPromise = adoption.transaction.validationPromise

/-- The lane goes on to the request behind, if there is one. -/
theorem moveTail_eq (adoption : Adoption) {behind : List ℕ} (tail : adoption.tailSettled = false)
    (lane : adoption.transaction.lane = behind.map .validate)
    : adoption.moveTail
      = {
        adoption with
        queue := adoption.queue ++ nextProof behind
        tailSettled := behind.isEmpty
      } := by
  rw [moveTail, lane]
  cases behind with
  | nil => simp [nextProof]
  | cons request later => simp [nextProof, push, tail]

theorem nextProof_plain {behind : List ℕ} {job : Job} (member : job ∈ nextProof behind)
    : ∃ request, job = .startProof request := by
  cases behind with
  | nil => cases member
  | cons request later => exact ⟨request, List.mem_singleton.mp member⟩

/-- A proof that was valid makes its Actor call go on. -/
theorem canAdopt_valid {actor : ℕ} {query : Option ℕ} {validation : ResourceValidation}
    (found : adoption.actors.findIdx? (·.request == request) = some actor)
    (returned : adoption.transaction.requests[request]? = some ⟨query, .returned validation⟩)
    (able : adoption.canAdopt actor = true)
    : query = none ∧ validation.isValid = true := by
  obtain ⟨inside, same, -⟩ := List.findIdx?_eq_some_iff_getElem.mp found
  have same : adoption.actors[actor].request = request := by simpa using same
  have located : adoption.actors[actor]? = some adoption.actors[actor] :=
    List.getElem?_eq_getElem inside
  simp only [canAdopt, located] at able
  split at able
  next own entry =>
    rw [Option.some.inj entry] at same
    rw [show own = request from same, returned] at able
    cases query with
    | none => exact ⟨rfl, able⟩
    | some query => cases able
  · cases able

/-- The Actor call of the proof goes on towards its adoption. -/
theorem Returned.push_adoption {next : Adoption} (returned : Returned reserve request adoption next)
    (actor : ℕ) (noWithdrawal : ∀ job ∈ next.queue, job.withdrawsIn = none)
    (ready : next.transaction.validationPromise = none → Ready next.transaction)
    : Returned reserve request adoption (next.push [.validateWorldBranch actor]) where
  steady := returned.steady
  lane := by simpa [laneJobs, push, Job.isLane] using returned.lane
  attempts := by simpa [attemptJobs, push, Job.isAttempt] using returned.attempts
  ready promise _ _ _ := ready promise
  joins reserved :=
    List.forall_mem_append.mpr ⟨returned.joins reserved, List.forall_mem_singleton.mpr rfl⟩
  ordered := returned.ordered.push_adoption actor noWithdrawal
  kept := returned.kept
  resolved := returned.resolved
  promise := returned.promise

/-- The caller resumes and the next operation of the lane starts. -/
theorem Orderly.returned (config : Config) {attempts : List ℕ} (orderly : adoption.Orderly reserve)
    (queue : adoption.queue = .proofSettled request attempts :: rest)
    : attempts = reserve.waits request
      ∧ Returned reserve request adoption
          (Adoption.returnValidation config (Adoption.moveTail { adoption with queue := rest })
            request) := by
  have early := orderly.early queue rfl
  have lane := orderly.lane early
  rw [laneJobs_cons queue rfl] at lane
  obtain ⟨same, tail, noJobs, behind, query, validation, next, line, behindLane, taken, moved,
    steady, promise, now, ready, kept⟩ := lane.proofSettled
  refine ⟨same, ?_⟩
  have ordered : Ordered (.proofSettled request attempts :: rest) := queue ▸ orderly.ordered
  have nobody := ordered.adoptions.none_left rfl
  let plain : Adoption := {
    adoption with
    transaction := next
    queue := rest ++ nextProof behind
    tailSettled := behind.isEmpty
  }
  have noWithdrawal : ∀ job ∈ plain.queue, job.withdrawsIn = none := by
    intro job member
    rcases List.mem_append.mp member with before | last
    · refine job.withdrawsIn_eq_none ?_ ?_
      · by_contra isLane
        have inside := List.mem_filter.mpr ⟨before, isLane⟩
        rw [noJobs] at inside
        cases inside
      · intro isAttempt
        refine orderly.attempt.notWithdraws early job ?_
        exact List.mem_filter.mpr ⟨by simp [queue, before], isAttempt⟩
    · obtain ⟨request, rfl⟩ := nextProof_plain last
      rfl
  have returned : Returned reserve request adoption plain := {
    steady
    lane := by
      have jobs : (rest ++ nextProof behind).filter Job.isLane = nextProof behind := by
        rw [List.filter_append, noJobs]
        cases behind <;> rfl
      rw [laneJobs, jobs]
      exact moved
    attempts := by
      have jobs : (nextProof behind).filter Job.isAttempt = [] := by cases behind <;> rfl
      rw [attemptJobs_skip queue rfl, attemptJobs, List.filter_append, jobs, List.append_nil]
    ready := fun _ job member follows => by
      rcases List.mem_append.mp member with before | last
      · exact absurd (nobody job before) follows
      · obtain ⟨request, rfl⟩ := nextProof_plain last
        exact absurd rfl follows
    joins := fun reserved job member => by
      rcases List.mem_append.mp member with before | last
      · exact orderly.joins (steady.outcome ▸ reserved) job (by simp [queue, before])
      · obtain ⟨request, rfl⟩ := nextProof_plain last
        rfl
    ordered := by
      cases behind with
      | nil => simpa [plain, nextProof] using ordered.tail
      | cons second later => exact ordered.tail.push_plain rfl rfl rfl rfl
    kept
    resolved := by simp [State.hasResolved, plain, now, RequestPhase.isResolved]
    promise := by
      cases behind with
      | nil => exact .inl ⟨line.last, promise⟩
      | cons second later => exact .inr ⟨by simp [behindLane], line.last_ne rfl, promise⟩
  }
  let middle : Adoption :=
    { adoption with queue := rest ++ nextProof behind, tailSettled := behind.isEmpty }
  have tailMoved : Adoption.moveTail { adoption with queue := rest } = middle :=
    moveTail_eq { adoption with queue := rest } tail behindLane
  rw [tailMoved, Adoption.returnValidation,
    perform_taken middle (.returnValidation request) taken]
  split
  next actor found =>
    split
    next able =>
      obtain ⟨own, valid⟩ := canAdopt_valid found now able
      exact returned.push_adoption actor noWithdrawal fun _ => ready own valid
    · exact returned
  · exact returned

end Adoption

namespace Adoption

variable {adoption next : Adoption} {reserve : Reserve} {rest : List Job} {request attempt : ℕ}

/-- What an attempt awaits is the pending validation. -/
theorem Orderly.awaiting (orderly : adoption.Orderly (.awaits attempt request))
    : adoption.transaction.outcome = some attempt
      ∧ adoption.transaction.attempts[attempt]? = some (.awaiting (some request))
      ∧ adoption.transaction.validationPromise = some request
      ∧ adoption.attemptJobs = [] := by
  have awaiting := orderly.attempt
  generalize adoption.attemptJobs = jobs at awaiting
  cases awaiting with
  | awaiting outcome phase pending => exact ⟨outcome, phase, pending, rfl⟩

/-- The attempt that awaited the promise may resume. -/
theorem Returned.resumable (orderly : adoption.Orderly (.awaits attempt request))
    (returned : Returned (.awaits attempt request) request adoption next)
    : next.Resumable attempt := by
  obtain ⟨outcome, phase, pending, noJobs⟩ := orderly.awaiting
  have withdrawn : next.transaction.validationPromise = none := by
    rcases returned.promise with ⟨-, none_⟩ | ⟨-, other, -⟩
    · exact none_
    · exact absurd pending other
  have reserved : next.transaction.outcome = some attempt := returned.steady.outcome.trans outcome
  obtain ⟨lane, tail, jobs⟩ := returned.lane.idle_of_promise withdrawn
  exact {
    outcome := reserved
    awaiting := ⟨some request, returned.steady.attempts ▸ phase, returned.resolved⟩
    jobs := returned.attempts.trans noJobs
    idle := ⟨lane, withdrawn, tail, jobs⟩
    ready := returned.ready withdrawn
    joins := returned.joins (by simp [reserved])
    ordered := returned.ordered
  }

/-- Otherwise the order is as before. -/
theorem Returned.orderly (orderly : adoption.Orderly reserve) (early : reserve ≠ .past)
    (others : ∀ attempt, reserve ≠ .awaits attempt request)
    (returned : Returned reserve request adoption next)
    : next.Orderly reserve where
  attempt := by
    rw [returned.attempts]
    refine orderly.attempt.steady returned.steady (.inr early) ?_
    rcases returned.promise with ⟨pending, -⟩ | ⟨-, -, same⟩
    · refine .inr fun attempt awaited same => ?_
      subst same
      obtain ⟨-, -, promise, -⟩ := orderly.awaiting
      obtain rfl := Option.some.inj (promise.symm.trans pending)
      exact others attempt rfl
    · exact .inl same
  lane _ := returned.lane
  ready _ := returned.ready
  idle past := absurd past early
  near resumes := by
    have lane := (orderly.near resumes).1
    rcases returned.promise with ⟨-, none_⟩ | ⟨busy, -, -⟩
    · exact ⟨returned.kept.trans lane, .inl none_⟩
    · exact absurd lane busy
  joins := returned.joins
  ordered := returned.ordered

/-- A promise settles: its caller resumes, and then an attempt that awaited it. -/
theorem Orderly.proofSettled {attempts : List ℕ} (orderly : adoption.Orderly reserve)
    (queue : adoption.queue = .proofSettled request attempts :: rest)
    : ∃ after,
        Adoption.Orderly after
          (Adoption.proofSettled config { adoption with queue := rest } request attempts) := by
  obtain ⟨rfl, returned⟩ := orderly.returned config queue
  rw [Adoption.proofSettled]
  by_cases awaits : ∃ attempt, reserve = .awaits attempt request
  · obtain ⟨attempt, rfl⟩ := awaits
    rw [Reserve.waits, if_pos rfl]
    exact ⟨.past, (returned.resumable orderly).resumeAttempt⟩
  · have nobody : reserve.waits request = [] := by
      cases reserve with
      | awaits attempt other =>
          have different : request ≠ other := by
            rintro rfl
            exact awaits ⟨attempt, rfl⟩
          simp [Reserve.waits, different]
      | _ => rfl
    rw [nobody]
    exact ⟨reserve, returned.orderly orderly (orderly.early queue rfl)
      fun attempt same => awaits ⟨attempt, same⟩⟩

end Adoption

theorem Ordered.push_admissions {queue : List Job} (ordered : Ordered queue) (requests : List ℕ)
    (none_ : ∀ other ∈ queue, other.adoptsIn = none)
    : Ordered (queue ++ requests.map .outcomeSettled) := by
  induction requests generalizing queue with
  | nil => simpa using ordered
  | cons request later ih =>
      rw [List.map_cons, List.append_cons]
      exact ih (ordered.push_admission request none_)
        (List.forall_mem_append.mpr ⟨none_, List.forall_mem_singleton.mpr rfl⟩)

section Settlement

variable {state : State} {reserve : Reserve} {attempt : ℕ} {more : List Job}

theorem AttemptAt.finishCommit {result : Except Thrown Unit}
    (at_ : AttemptAt state reserve (.finishCommit attempt result :: more))
    : reserve = .past
      ∧ more = []
      ∧ state.outcome = some attempt
      ∧ state.attempts[attempt]? = some .invoking := by
  cases at_ with
  | invoking outcome phase value answer =>
      rcases answer with none_ | ⟨other, same⟩
      · cases none_
      · cases same
        exact ⟨rfl, rfl, outcome, phase⟩
  | failing outcome phase recoverable value withdrawal => simp at withdrawal

theorem AttemptAt.relayAttempt (at_ : AttemptAt state reserve (.relayAttempt attempt :: more))
    : reserve = .past ∧ more = [] ∧ AttemptAt state .past [.settleAttempt attempt] := by
  cases at_ with
  | invoking outcome phase value answer => simp at answer
  | failing outcome phase recoverable value withdrawal =>
      rcases withdrawal with same | same
      · cases same
        exact ⟨rfl, rfl, .failing outcome phase recoverable value (.inr rfl)⟩
      · cases same

theorem AttemptAt.settleAttempt (at_ : AttemptAt state reserve (.settleAttempt attempt :: more))
    : reserve = .past
      ∧ more = []
      ∧ state.stateValue = .sealed
      ∧ ∃ next,
          settleAttempt state attempt = some next
          ∧ LaneKept state next
          ∧ next.outcome = none := by
  cases at_ with
  | invoking outcome phase value answer => simp at answer
  | @failing attempt failure jobs outcome phase recoverable value withdrawal =>
      rcases withdrawal with same | same
      · cases same
      · cases same
        let next : State :=
          { state.setAttempt attempt (.settled (.error failure)) with outcome := none }
        refine ⟨rfl, rfl, value, next, ?_, ⟨rfl, rfl, rfl, rfl, id⟩, rfl⟩
        simp only [EffectTransaction.settleAttempt, phase, effectCommitFailure, recoverable,
          if_true, next]

/-- The backend commit ends the transaction, or its failure leaves it sealed. -/
theorem finishCommit_cases (found : state.attempts[attempt]? = some .invoking)
    (result : Except Thrown Unit)
    : (∃ next,
        finishCommit state attempt result = some next ∧ next.stateValue.isTerminal = true)
      ∨ ∃ (failure : EffectCommitFailure) (calls : List BackendCall),
          failure.disposition = .recoverable
          ∧ finishCommit state attempt result
            = some {
                state.setAttempt attempt (.applied (.error (.failure failure))) with
                stateValue := .sealed
                validation := none
                calls
              } := by
  cases result with
  | ok done =>
      refine .inl ⟨_, by simp only [finishCommit, found]; rfl, rfl⟩
  | error error =>
      let failure := effectCommitFailure error .poisoned
        (some "effect commit failed without proof that its side effects were restored")
      cases disposition : failure.disposition with
      | recoverable =>
          refine .inr
            ⟨failure, state.calls ++ [.commitEnded attempt (.error error)], disposition, ?_⟩
          simp only [finishCommit, found, rejectEffect]
          rw [show (effectCommitFailure error .poisoned _).disposition = _ from disposition]
          rfl
      | poisoned =>
          refine .inl ⟨_, by simp only [finishCommit, found]; rfl, ?_⟩
          simp only [rejectEffect]
          rw [show (effectCommitFailure error .poisoned _).disposition = _ from disposition]
          rfl

end Settlement

namespace Adoption

variable {adoption next : Adoption} {reserve : Reserve} {rest : List Job} {request attempt : ℕ}

/-- An attempt that resumes in a continuation of its own finds no validation pending. -/
theorem Orderly.resumable (orderly : adoption.Orderly reserve)
    (queue : adoption.queue = .resumeAttempt attempt :: rest)
    : Adoption.Resumable { adoption with queue := rest } attempt := by
  have at_ := orderly.attempt
  rw [attemptJobs_cons queue rfl] at at_
  obtain ⟨rfl, noJobs, outcome, awaiting⟩ := at_.resumeAttempt
  have ordered : Ordered (.resumeAttempt attempt :: rest) := queue ▸ orderly.ordered
  have promise : adoption.transaction.validationPromise = none := by
    rcases (orderly.near rfl).2 with none_ | ⟨request, jobs⟩
    · exact none_
    · rw [laneJobs_skip queue rfl] at jobs
      have inside : .proofSettled request [] ∈ rest :=
        List.mem_of_mem_filter (jobs ▸ List.mem_singleton_self _)
      cases ordered.returns.none_left rfl _ inside
  obtain ⟨lane, tail, jobs⟩ := (orderly.lane (by simp)).idle_of_promise promise
  have reserved : adoption.transaction.outcome ≠ none := by simp [outcome]
  exact {
    outcome
    awaiting
    jobs := noJobs
    idle := ⟨lane, promise, tail, (laneJobs_skip queue rfl).symm.trans jobs⟩
    ready := fun job member => orderly.ready (by simp) promise job (by simp [queue, member])
    joins := fun job member => orderly.joins reserved job (by simp [queue, member])
    ordered := ordered.tail
  }

/-- The attempt is past its check and goes on. -/
theorem Orderly.past {before : List Job} {after : Job} {state : State}
    (orderly : adoption.Orderly .past) (kept : before.filter Job.isLane = adoption.laneJobs)
    (subset : ∀ job ∈ before, job ∈ adoption.queue) (lane : state.lane = adoption.transaction.lane)
    (promise : state.validationPromise = adoption.transaction.validationPromise)
    (at_ : AttemptAt state .past ((before ++ [after]).filter Job.isAttempt))
    (plain : after.isLane = false ∧ after.admitsIn = none) (ordered : Ordered (before ++ [after]))
    : Adoption.Orderly .past
        { adoption with transaction := state, queue := before ++ [after] } := by
  obtain ⟨empty, withdrawn, tail, jobs⟩ := orderly.idle rfl
  have reserved : adoption.transaction.outcome ≠ none := by
    intro outcome
    cases (orderly.attempt.free_of_outcome outcome).1
  exact {
    attempt := at_
    lane := by simp
    ready := by simp
    idle := fun _ => by
      refine ⟨lane.trans empty, promise.trans withdrawn, tail, ?_⟩
      simpa [laneJobs, plain.1] using kept.trans jobs
    near := by simp
    joins := fun _ => List.forall_mem_append.mpr
      ⟨fun other member => orderly.joins reserved other (subset other member),
        List.forall_mem_singleton.mpr plain.2⟩
    ordered
  }

theorem mem_of_rest {job : Job} (queue : adoption.queue = job :: rest)
    : ∀ other ∈ rest, other ∈ adoption.queue :=
  fun _ member => queue ▸ List.mem_cons_of_mem job member

/-- The backend commit ends: it closes the transaction, or its failure is about to be withdrawn. -/
theorem Orderly.finishCommit {result : Except Thrown Unit} (orderly : adoption.Orderly reserve)
    (queue : adoption.queue = .finishCommit attempt result :: rest)
    : InOrder
        (Adoption.perform config { adoption with queue := rest } (.finishCommit attempt result)
          (·.push [.relayAttempt attempt])) := by
  have at_ := orderly.attempt
  rw [attemptJobs_cons queue rfl] at at_
  obtain ⟨rfl, noJobs, outcome, phase⟩ := at_.finishCommit
  have ordered : Ordered (.finishCommit attempt result :: rest) := queue ▸ orderly.ordered
  rcases finishCommit_cases phase result with
    ⟨next, taken, terminal⟩ | ⟨failure, calls, recoverable, taken⟩
  · rw [perform_taken { adoption with queue := rest } (.finishCommit attempt result) taken]
    exact .inl (by simp [State.isClosed, push, terminal])
  · rw [perform_taken { adoption with queue := rest } (.finishCommit attempt result) taken]
    refine .inr ⟨.past, orderly.past (laneJobs_skip queue rfl).symm (mem_of_rest queue) rfl rfl ?_
      ⟨rfl, rfl⟩ ?_⟩
    · rw [List.filter_append, noJobs]
      exact .failing outcome (setAttempt_found phase _) recoverable rfl (.inl rfl)
    · exact ordered.rotate ⟨by simp [Job.adoptsIn]⟩ ⟨by simp [Job.withdrawsIn]⟩
        ⟨by simp [Job.admitsIn]⟩ rfl rfl

theorem Orderly.relayAttempt (orderly : adoption.Orderly reserve)
    (queue : adoption.queue = .relayAttempt attempt :: rest)
    : Adoption.Orderly reserve
        (Adoption.push { adoption with queue := rest } [.settleAttempt attempt]) := by
  have at_ := orderly.attempt
  rw [attemptJobs_cons queue rfl] at at_
  obtain ⟨rfl, noJobs, onwards⟩ := at_.relayAttempt
  have ordered : Ordered (.relayAttempt attempt :: rest) := queue ▸ orderly.ordered
  refine orderly.past (laneJobs_skip queue rfl).symm (mem_of_rest queue) rfl rfl ?_ ⟨rfl, rfl⟩ ?_
  · rw [List.filter_append, noJobs]
    exact onwards
  · exact ordered.rotate ⟨by simp [Job.adoptsIn]⟩ ⟨by simp [Job.withdrawsIn]⟩
      ⟨by simp [Job.admitsIn]⟩ rfl rfl

/-- A withdrawn attempt makes room for the next one, and the requests behind it resume. -/
theorem Orderly.settleAttempt (orderly : adoption.Orderly reserve)
    (queue : adoption.queue = .settleAttempt attempt :: rest)
    : Adoption.Orderly .free
        (Adoption.settleAttempt config { adoption with queue := rest } attempt) := by
  have at_ := orderly.attempt
  rw [attemptJobs_cons queue rfl] at at_
  obtain ⟨rfl, noJobs, value, next, taken, kept, free⟩ := at_.settleAttempt
  have ordered : Ordered (.settleAttempt attempt :: rest) := queue ▸ orderly.ordered
  have nobody := ordered.adoptions.none_left rfl
  obtain ⟨empty, withdrawn, tail, jobs⟩ := orderly.idle rfl
  have noLane : rest.filter Job.isLane = [] := by simpa [laneJobs, queue, Job.isLane] using jobs
  rw [Adoption.settleAttempt,
    perform_taken { adoption with queue := rest } (.settleAttempt attempt) taken]
  dsimp only
  generalize List.filter _ (List.range next.requests.length) = joining
  have plain (job : Job) (member : job ∈ joining.map Job.outcomeSettled)
      : ∃ request, job = .outcomeSettled request := by
    obtain ⟨request, -, rfl⟩ := List.mem_map.mp member
    exact ⟨request, rfl⟩
  have filters (chain : Job → Bool) (other : ∀ request, chain (.outcomeSettled request) = false)
      : (rest ++ joining.map Job.outcomeSettled).filter chain = rest.filter chain := by
    simp [List.filter_map, other, Function.comp_def]
  have idle : Lane Reserve.free.waits next adoption.tailSettled [] := by
    rw [tail]
    exact .idle (kept.lane.trans empty) (kept.validationPromise.trans withdrawn)
      (.inl (kept.stateValue.trans value))
  exact {
    attempt := by
      rw [attemptJobs, push, filters Job.isAttempt fun _ => rfl, noJobs]
      exact .unreserved free
    lane := fun _ => by
      rw [laneJobs, push, filters Job.isLane fun _ => rfl, noLane]
      exact idle
    ready := fun _ _ job member follows => by
      rcases List.mem_append.mp member with before | last
      · exact absurd (nobody job before) follows
      · obtain ⟨request, rfl⟩ := plain job last
        exact absurd rfl follows
    idle := by simp
    near := by simp
    joins := fun reserved => absurd free reserved
    ordered := ordered.tail.push_admissions joining nobody
  }

end Adoption

end SpeculativeAction.EffectTransaction
