import SpeculativeAction.EffectTransaction.CommitSafety

/-! Actors that adopt one shared candidate: each validates the transaction for itself and,
when its own proof is valid, commits it. A commit failure that is not classified counts as
poisoned, so a commit refused before any effect must carry its disposition. Continuations run in
the order of the host's microtask queue; callers and callbacks come in between, in any order.
-/

namespace SpeculativeAction.EffectTransaction

open SpeculativeAction.Library

variable {config : Config}

/-- What an awaited call of `commit` throws, once it has settled. -/
def commitError (state : State) : CommitCall → Option Thrown
  | .rejected error => some error
  | .joined attempt =>
      match state.attempts[attempt]? with
      | some (.settled (.error failure)) => some (.failure failure)
      | _ => none

/-- How a selection continues after a failed commit. -/
inductive CommitRejection where
  /-- The Actor call itself fails. -/
  | rethrown (failure : EffectCommitFailure)
  /-- The candidate is rejected and the Actor falls back. -/
  | rejected (cause : ResolutionCause)
deriving DecidableEq, Repr

/-- The `catch` around the commit of `selectActorCandidate`. -/
def selectActorCandidate (error : Thrown) : CommitRejection :=
  let commitFailure := effectCommitFailure error .poisoned
  if isPoisonedEffectCommit commitFailure then .rethrown commitFailure
  else
    .rejected (commitFailure.resolutionCause.getD {
      stage := .commit
      code := "world_commit_failed"
      detail := "EffectCommitFailure: " ++ commitFailure.message
    })

/-- The error ends the selection instead of rejecting the candidate. -/
def isRethrown (error : Thrown) : Bool :=
  match selectActorCandidate error with
  | .rethrown _ => true
  | .rejected _ => false

/-- The backend commit of this attempt was called. -/
def commitCalled (calls : List BackendCall) (attempt : ℕ) : Bool :=
  calls.any fun
    | .commitStarted started _ => started == attempt
    | _ => false

/-- One Actor call: its own validation request and its commit call, if it made one. -/
structure ActorCall where
  request : ℕ
  commit : Option ℕ := none
deriving DecidableEq, Repr

/-- A continuation in the microtask queue. What awaits one promise runs in one go when the promise
settles, so the reactions to the promise of a request are one job.
-/
inductive Job where
  /-- The lane calls the operation of a request. -/
  | startProof (request : ℕ)
  /-- The operation resumes behind its proof. -/
  | finishProof (request : ℕ) (returned : Except String ResourceValidation)
  /-- The promise of the request takes over the result of the operation. -/
  | settleProof (request : ℕ)
  /-- The tail of the lane, the caller of `validate` and the attempts that awaited the promise. -/
  | proofSettled (request : ℕ) (attempts : List ℕ)
  /-- An Actor call resumes behind `validate`, and so on outwards. -/
  | validateWorldBranch (actor : ℕ)
  | prepareCandidateOutput (actor : ℕ)
  | selectActorCandidate (actor : ℕ)
  | startAttempt (attempt : ℕ)
  | resumeAttempt (attempt : ℕ)
  /-- The attempt resumes behind the backend commit. -/
  | finishCommit (attempt : ℕ) (result : Except Thrown Unit)
  /-- The promise of `then` takes over the result of `apply`. -/
  | relayAttempt (attempt : ℕ)
  | settleAttempt (attempt : ℕ)
  /-- `allSettled` has seen the outcome that a request waits for. -/
  | outcomeSettled (request : ℕ)
  | resumeValidate (request : ℕ)
deriving DecidableEq, Repr

/-- A shared transaction, the Actor calls that prepared it and the continuations to run. The next
operation of the lane starts once the tail has settled.
-/
structure Adoption where
  transaction : State := {}
  actors : List ActorCall := []
  queue : List Job := []
  tailSettled : Bool := true
deriving DecidableEq, Repr

namespace Adoption

section Reading

variable (adoption : Adoption)

/-- The actor's own proof of the branch was valid and it has not committed yet. -/
def canAdopt (actor : ℕ) : Bool :=
  match adoption.actors[actor]? with
  | some ⟨request, none⟩ =>
      match adoption.transaction.requests[request]? with
      | some ⟨none, .returned validation⟩ => validation.isValid
      | _ => false
  | _ => false

/-- The commit call an actor made. -/
def call? (actor : ActorCall) : Option CommitCall :=
  actor.commit.bind fun index => adoption.transaction.commits[index]?

/-- The selection of this actor ends by rethrowing a poisoned failure. -/
def isPoisoned (actor : ActorCall) : Bool :=
  ((adoption.call? actor).bind (commitError adoption.transaction)).any isRethrown

/-- The attempt behind this actor's commit called the backend. -/
def startedEffect (actor : ActorCall) : Bool :=
  match adoption.call? actor with
  | some (.joined attempt) => commitCalled adoption.transaction.calls attempt
  | _ => false

/-- The promise of the request has settled and its reactions have not run. -/
def hasSettled (request : ℕ) : Bool :=
  adoption.queue.any fun
    | .proofSettled settled _ => settled == request
    | _ => false

/-- The proof callback of the request has answered. -/
def isAnswered (request : ℕ) : Bool :=
  adoption.queue.any fun
    | .finishProof answered _ => answered == request
    | _ => false

/-- The backend commit of the attempt has answered. -/
def isCommitAnswered (attempt : ℕ) : Bool :=
  adoption.queue.any fun
    | .finishCommit answered _ => answered == attempt
    | _ => false

end Reading

/-- The attempts that await the promise of a request. -/
def waiting (state : State) (request : ℕ) : List ℕ :=
  (List.range state.attempts.length).filter fun attempt =>
    state.attempts[attempt]? = some (.awaiting (some request))

section Continuing

variable (config : Config) (adoption : Adoption)

def push (jobs : List Job) : Adoption := { adoption with queue := adoption.queue ++ jobs }

/-- Take an action of the transaction and go on behind it. -/
def perform (action : Action) (next : Adoption → Adoption) : Adoption :=
  match step? config adoption.transaction action with
  | some transaction => next { adoption with transaction }
  | none => adoption

/-- The rest of a call of `validate`: an admitted request starts at once behind a settled tail, and
one that joins a settled outcome resumes at once.
-/
def admitted (request : ℕ) : Adoption :=
  match adoption.transaction.requests[request]? with
  | some ⟨_, .queued⟩ =>
      if adoption.tailSettled then
        { adoption.push [.startProof request] with tailSettled := false }
      else
        adoption
  | some ⟨_, .joining attempt⟩ =>
      if adoption.transaction.attempts[attempt]?.any (·.isSettled) then
        adoption.push [.outcomeSettled request]
      else
        adoption
  | _ => adoption

def validate (query : Option ℕ) : Adoption :=
  adoption.perform config (.validate query) fun called =>
    called.admitted adoption.transaction.requests.length

/-- `prepareCandidateOutput` validates the shared branch for a new Actor call. -/
def prepare : Adoption :=
  {
    adoption.validate config none with
    actors := adoption.actors ++ [⟨adoption.transaction.requests.length, none⟩]
  }

/-- The tail of the lane settles: the next operation starts. -/
def moveTail : Adoption :=
  match adoption.transaction.lane.head? with
  | some (.validate request) => adoption.push [.startProof request]
  | some .close => adoption
  | none => { adoption with tailSettled := true }

/-- `validate` returns; an Actor call goes on with a valid proof. -/
def returnValidation (request : ℕ) : Adoption :=
  adoption.perform config (.returnValidation request) fun returned =>
    match returned.actors.findIdx? (·.request == request) with
    | some actor =>
        if returned.canAdopt actor then returned.push [.validateWorldBranch actor] else returned
    | none => returned

/-- An attempt awaits the pending validation: a promise that has settled resumes it at once. -/
def startAttempt (attempt : ℕ) : Adoption :=
  adoption.perform config (.startAttempt attempt) fun started =>
    match started.transaction.validationPromise with
    | some request =>
        if started.hasSettled request then started.push [.resumeAttempt attempt] else started
    | none => started.push [.resumeAttempt attempt]

/-- An attempt that may not start its effect fails at once. -/
def resumeAttempt (attempt : ℕ) : Adoption :=
  adoption.perform config (.resumeAttempt attempt) fun resumed =>
    match resumed.transaction.attempts[attempt]? with
    | some (.applied _) => resumed.push [.relayAttempt attempt]
    | _ => resumed

/-- The reactions to the promise of a request, in the order they were registered. -/
def proofSettled (request : ℕ) (attempts : List ℕ) : Adoption :=
  attempts.foldl (resumeAttempt config) (adoption.moveTail.returnValidation config request)

/-- The Actor call commits the branch it has just proved. -/
def adopt (actor : ℕ) : Adoption :=
  if adoption.canAdopt actor then
    let called : Adoption :=
      {
        adoption with
        transaction := commit config adoption.transaction
        actors := adoption.actors.modify actor fun current =>
          { current with commit := some adoption.transaction.commits.length }
      }
    match commitCall config adoption.transaction with
    | none => called.push [.startAttempt adoption.transaction.attempts.length]
    | some _ => called
  else
    adoption

/-- The requests that wait for an attempt to settle resume behind `allSettled`. -/
def settleAttempt (attempt : ℕ) : Adoption :=
  adoption.perform config (.settleAttempt attempt) fun settled =>
    let joining := (List.range settled.transaction.requests.length).filter fun request =>
      settled.transaction.requests[request]?.any (·.phase == .joining attempt)
    settled.push (joining.map .outcomeSettled)

def runJob : Job → Adoption
  | .startProof request => adoption.perform config (.startProof request) id
  | .finishProof request returned =>
      adoption.perform config (.finishProof request returned) (·.push [.settleProof request])
  | .settleProof request =>
      adoption.push [.proofSettled request (waiting adoption.transaction request)]
  | .proofSettled request attempts => adoption.proofSettled config request attempts
  | .validateWorldBranch actor => adoption.push [.prepareCandidateOutput actor]
  | .prepareCandidateOutput actor => adoption.push [.selectActorCandidate actor]
  | .selectActorCandidate actor => adoption.adopt config actor
  | .startAttempt attempt => adoption.startAttempt config attempt
  | .resumeAttempt attempt => adoption.resumeAttempt config attempt
  | .finishCommit attempt result =>
      adoption.perform config (.finishCommit attempt result) (·.push [.relayAttempt attempt])
  | .relayAttempt attempt => adoption.push [.settleAttempt attempt]
  | .settleAttempt attempt => adoption.settleAttempt config attempt
  | .outcomeSettled request => adoption.push [.resumeValidate request]
  | .resumeValidate request =>
      adoption.perform config (.resumeValidate request) (·.admitted request)

/-- The host runs the first continuation of the queue. -/
def run : Adoption :=
  match adoption.queue with
  | [] => adoption
  | job :: rest => { adoption with queue := rest }.runJob config job

/-- The proof callback that the lane waits for settles. -/
def answerProof (returned : Except String ResourceValidation) : Adoption :=
  match adoption.transaction.lane.head? with
  | some (.validate request) =>
      match adoption.transaction.requests[request]? with
      | some ⟨_, .proving _⟩ =>
          if adoption.isAnswered request then adoption
          else adoption.push [.finishProof request returned]
      | _ => adoption
  | _ => adoption

/-- The backend commit settles. -/
def answerCommit (result : Except Thrown Unit) : Adoption :=
  match adoption.transaction.outcome with
  | some attempt =>
      if adoption.transaction.attempts[attempt]? = some .invoking
          ∧ adoption.isCommitAnswered attempt = false then
        adoption.push [.finishCommit attempt result]
      else
        adoption
  | none => adoption

end Continuing

end Adoption

/-- The validations and commits of a transaction, which the queue orders. -/
def Action.isQueued : Action → Bool
  | .validate _ | .resumeValidate _ | .startProof _ | .finishProof _ _ | .returnValidation _
  | .commit | .startAttempt _ | .resumeAttempt _ | .finishCommit _ _ | .settleAttempt _ => true
  | _ => false

/-- What may happen next: a call, an answer, the next continuation, or an action of the borrowers
or of the teardown.
-/
inductive AdoptionStep where
  | prepare
  | validate (query : Option ℕ)
  | answerProof (returned : Except String ResourceValidation)
  | answerCommit (result : Except Thrown Unit)
  | run
  | other (action : Action)
deriving DecidableEq, Repr

namespace Adoption

/-- One step; only Actor calls commit the shared transaction. -/
def advance (config : Config) (adoption : Adoption) : AdoptionStep → Adoption
  | .prepare => adoption.prepare config
  | .validate query => adoption.validate config query
  | .answerProof returned => adoption.answerProof returned
  | .answerCommit result => adoption.answerCommit result
  | .run => adoption.run config
  | .other action => if action.isQueued then adoption else adoption.perform config action id

/-- The Actors and their transaction after a list of steps. -/
def afterSteps (config : Config) (steps : List AdoptionStep) : Adoption :=
  runAll (advance config) {} steps

/-- A rethrown failure comes from a commit whose backend effect was started. -/
def PoisonSound (adoption : Adoption) : Prop :=
  ∀ actor ∈ adoption.actors,
    adoption.isPoisoned actor = true → adoption.startedEffect actor = true

instance (adoption : Adoption) : Decidable adoption.PoisonSound :=
  inferInstanceAs (Decidable (∀ _ ∈ _, _))

end Adoption

/-- The transaction is open and unreserved, yet nothing authorises a commit: no validation
is pending and the latest completed one is not valid.
-/
def isUnvalidated (config : Config) (state : State) : Bool :=
  !config.inputsOnly && state.outcome.isNone && !state.isSealed
    && state.validationPromise.isNone && !state.latestValid

section Transaction

variable {state next : State} {attempt : ℕ}

/-- Every attempt past its authority check called the backend. -/
def CallsBackend (state : State) : Prop :=
  ∀ (attempt : ℕ) (phase : AttemptPhase),
    state.attempts[attempt]? = some phase
    → phase.effect ≠ .idle
    → commitCalled state.calls attempt = true

/-- A step that makes no commit call and starts effects only through the backend. -/
structure Extends (state next : State) : Prop where
  commits : next.commits = state.commits
  calls : ∃ events, next.calls = state.calls ++ events
  started
    : ∀ (attempt : ℕ) (phase : AttemptPhase),
        next.attempts[attempt]? = some phase
        → phase.effect ≠ .idle
        → commitCalled next.calls attempt = true
          ∨ ∃ old, state.attempts[attempt]? = some old ∧ old.effect ≠ .idle

theorem commitCalled_append (calls events : List BackendCall) (attempt : ℕ)
    : commitCalled (calls ++ events) attempt
      = (commitCalled calls attempt || commitCalled events attempt) := by
  simp [commitCalled]

theorem Extends.callsBackend (extends' : Extends state next) (before : CallsBackend state)
    : CallsBackend next := by
  intro attempt phase found effect
  rcases extends'.started attempt phase found effect with called | ⟨old, found, effect⟩
  · exact called
  · obtain ⟨events, appended⟩ := extends'.calls
    rw [appended, commitCalled_append, before attempt old found effect, Bool.true_or]

/-- A step that leaves the attempts alone. -/
theorem Extends.of_attempts (commits : next.commits = state.commits)
    (calls : ∃ events, next.calls = state.calls ++ events)
    (attempts : next.attempts = state.attempts)
    : Extends state next where
  commits := commits
  calls := calls
  started _ phase found effect := .inr ⟨phase, attempts ▸ found, effect⟩

/-- A step that moves one attempt: its effect is idle, was under way, or starts now. -/
theorem Extends.of_set {old phase : AttemptPhase} (commits : next.commits = state.commits)
    (calls : ∃ events, next.calls = state.calls ++ events)
    (attempts : next.attempts = state.attempts.set attempt phase)
    (found : state.attempts[attempt]? = some old)
    (effect
      : phase.effect = .idle ∨ old.effect ≠ .idle ∨ commitCalled next.calls attempt = true)
    : Extends state next where
  commits := commits
  calls := calls
  started _ otherPhase otherFound busy := by
    rw [attempts, List.getElem?_set] at otherFound
    split at otherFound
    · rename_i same
      subst same
      obtain ⟨-, rfl⟩ : attempt < state.attempts.length ∧ phase = otherPhase := by
        simpa using otherFound
      rcases effect with idle | underWay | starts
      · exact absurd idle busy
      · exact .inr ⟨old, found, underWay⟩
      · exact .inl starts
    · exact .inr ⟨otherPhase, otherFound, busy⟩

theorem Quiet.extends (quiet : Quiet state next) : Extends state next :=
  .of_attempts quiet.commits ⟨[], by simp [quiet.calls]⟩ quiet.attempts

theorem finishProof_extends {request : ℕ} {returned : Except String ResourceValidation}
    (taken : finishProof config state request returned = some next)
    : Extends state next := by
  unfold finishProof at taken
  split at taken
  · rename_i query released found
    obtain rfl := Option.some.inj taken
    cases query <;> exact .of_attempts rfl ⟨_, rfl⟩ rfl
  · cases taken

theorem startAttempt_extends (taken : startAttempt state attempt = some next)
    : Extends state next := by
  unfold startAttempt at taken
  split at taken
  · rename_i found
    obtain rfl := Option.some.inj taken
    exact .of_set rfl ⟨[], by simp [State.setAttempt]⟩ rfl found (.inl rfl)
  · cases taken

theorem resumeAttempt_extends (taken : resumeAttempt config state attempt = some next)
    : Extends state next := by
  unfold resumeAttempt at taken
  split at taken
  · rename_i request found
    simp only [Option.ite_none_right_eq_some] at taken
    obtain ⟨-, taken⟩ := taken
    split at taken <;> obtain rfl := Option.some.inj taken
    · refine .of_set rfl ⟨_, rfl⟩ rfl found (.inr (.inr ?_))
      simp [commitCalled]
    · refine .of_set rfl ⟨[], by simp [rejectEffect, State.setAttempt]⟩ rfl found (.inl ?_)
      simp [AttemptPhase.effect, endsRecoverably, effectCommitFailure, unauthorisedFailure]
  · cases taken

theorem finishCommit_extends {result : Except Thrown Unit}
    (taken : finishCommit state attempt result = some next)
    : Extends state next := by
  unfold finishCommit at taken
  split at taken
  · rename_i found
    rcases result with error | done <;> obtain rfl := Option.some.inj taken <;>
      exact .of_set rfl ⟨_, rfl⟩ rfl found (.inr (.inl (by simp [AttemptPhase.effect])))
  · cases taken

/-- Settling classifies the error once more, which changes nothing about the effect. -/
theorem settleAttempt_extends (taken : settleAttempt state attempt = some next)
    : Extends state next := by
  unfold settleAttempt at taken
  split at taken
  · rename_i found
    obtain rfl := Option.some.inj taken
    exact .of_set rfl ⟨[], by simp [State.setAttempt]⟩ rfl found
      (.inr (.inl (by simp [AttemptPhase.effect, endsRecoverably])))
  · rename_i error found
    obtain rfl := Option.some.inj taken
    refine .of_set rfl ⟨[], by simp [State.setAttempt]⟩ rfl found ?_
    rcases disposition : (effectCommitFailure error .poisoned).disposition
    · left
      simp [AttemptPhase.effect, disposition]
    · right; left
      simp [AttemptPhase.effect, endsRecoverably, disposition]
  · cases taken

/-- Every action but `commit` extends the transaction. -/
theorem step_extends (config : Config) (state : State) {action : Action}
    (notCommit : action ≠ .commit)
    : Extends state (step config state action) := by
  unfold step
  rcases taken : step? config state action with _ | next
  · exact (Quiet.refl state).extends
  rw [Option.getD_some]
  cases action with
  | validate query => exact (validate_quiet taken).extends
  | resumeValidate request => exact (resumeValidate_quiet taken).extends
  | startProof request => exact (startProof_quiet taken).extends
  | finishProof request returned => exact finishProof_extends taken
  | returnValidation request => exact (returnValidation_quiet taken).extends
  | commit => exact absurd rfl notCommit
  | startAttempt attempt => exact startAttempt_extends taken
  | resumeAttempt attempt => exact resumeAttempt_extends taken
  | finishCommit attempt result => exact finishCommit_extends taken
  | settleAttempt attempt => exact settleAttempt_extends taken
  | takeCommittedInputs => exact (takeCommittedInputs_quiet taken).extends
  | inputsTaken retained => exact (inputsTaken_quiet taken).extends
  | inputsDisposed => exact (inputsDisposed_quiet taken).extends
  | reconstruct => exact (reconstruct_quiet taken).extends
  | reconstructed task result => exact (reconstructed_quiet taken).extends
  | discarded task => exact (discarded_quiet taken).extends
  | disposeQuery query => exact (disposeQuery_quiet taken).extends
  | queryReleased query => exact (queryReleased_quiet taken).extends
  | abort => exact Option.some.inj taken ▸ (abort_quiet state).extends
  | startClose => exact (startClose_quiet taken).extends
  | drained =>
      simp only [step?, drained, Option.ite_none_right_eq_some, Option.some.injEq] at taken
      obtain ⟨-, rfl⟩ := taken
      exact .of_attempts rfl ⟨[], by simp⟩ rfl
  | queriesDisposed =>
      simp only [step?, queriesDisposed, Option.ite_none_right_eq_some, Option.some.injEq]
        at taken
      obtain ⟨-, rfl⟩ := taken
      exact .of_attempts rfl ⟨_, rfl⟩ rfl
  | backendDisposed =>
      simp only [step?, backendDisposed, Option.ite_none_right_eq_some, Option.some.injEq]
        at taken
      obtain ⟨-, rfl⟩ := taken
      exact .of_attempts rfl ⟨_, rfl⟩ rfl

/-- The call a use of `commit` records. -/
def newCall (config : Config) (state : State) : CommitCall :=
  (commitCall config state).getD (.joined state.attempts.length)

/-- A commit call is recorded, calls no backend, and adds at most an idle attempt. -/
theorem commit_records (config : Config) (state : State)
    : (commit config state).commits = state.commits ++ [newCall config state]
      ∧ (CallsBackend state → CallsBackend (commit config state)) := by
  unfold commit newCall
  split
  · rename_i call decided
    exact ⟨by simp [decided], id⟩
  · rename_i starts
    refine ⟨by simp [starts], ?_⟩
    intro before attempt phase found effect
    rcases Nat.lt_trichotomy attempt state.attempts.length with earlier | rfl | beyond
    · rw [List.getElem?_append_left earlier] at found
      exact before attempt phase found effect
    · obtain rfl : .scheduled = phase := by simpa using found
      exact absurd rfl effect
    · rw [List.getElem?_eq_none (by simpa using Nat.succ_le_of_lt beyond)] at found
      cases found

/-- The one unclassified rejection is the one that nothing has validated. -/
theorem newCall_rejected {error : Thrown} (authorised : isUnvalidated config state = false)
    (rejected : newCall config state = .rejected error)
    : isRethrown error = false := by
  unfold newCall commitCall at rejected
  split at rejected
  · obtain rfl := by simpa using rejected
    rfl
  split at rejected
  · simp at rejected
  split at rejected
  · obtain rfl := by simpa using rejected
    rfl
  split at rejected
  · simp_all [isUnvalidated]
  · simp at rejected

/-- Every attempt past its check called the backend, and every rejected call is recoverable. -/
structure Blameless (state : State) : Prop where
  callsBackend : CallsBackend state
  recoverable : ∀ error, .rejected error ∈ state.commits → isRethrown error = false

theorem Blameless.extend (blameless : Blameless state) (extends' : Extends state next)
    : Blameless next where
  callsBackend := extends'.callsBackend blameless.callsBackend
  recoverable error member := blameless.recoverable error (extends'.commits ▸ member)

/-- Only a commit that nothing authorises is to blame. -/
theorem Blameless.commit (blameless : Blameless state)
    (authorised : isUnvalidated config state = false)
    : Blameless (commit config state) where
  callsBackend := (commit_records config state).2 blameless.callsBackend
  recoverable error member := by
    rw [(commit_records config state).1] at member
    rcases List.mem_append.mp member with earlier | last
    · exact blameless.recoverable error earlier
    · exact newCall_rejected authorised (List.mem_singleton.mp last).symm

/-- A rethrown attempt was settled as poisoned, so its effect is past the backend call. -/
theorem commitCalled_of_poisoned {error : Thrown} (before : CallsBackend state)
    (thrown : commitError state (.joined attempt) = some error) (rethrown : isRethrown error = true)
    : commitCalled state.calls attempt = true := by
  simp only [commitError] at thrown
  split at thrown
  · rename_i failure found
    obtain rfl := Option.some.inj thrown
    apply before attempt _ found
    intro idle
    rcases disposition : failure.disposition <;>
      simp [AttemptPhase.effect, isRethrown, selectActorCandidate, isPoisonedEffectCommit,
        effectCommitFailure, disposition] at idle rethrown
  · cases thrown

end Transaction

namespace Adoption

variable {adoption : Adoption}

theorem poisonSound_of_blameless (blameless : Blameless adoption.transaction)
    : adoption.PoisonSound := by
  intro actor _ poisoned
  simp only [isPoisoned, Option.any_eq_true, Option.bind_eq_some_iff] at poisoned
  obtain ⟨error, ⟨call, made, thrown⟩, rethrown⟩ := poisoned
  cases call with
  | rejected other =>
      obtain rfl := Option.some.inj thrown
      obtain ⟨index, -, found⟩ := Option.bind_eq_some_iff.mp made
      cases (blameless.recoverable other (List.mem_of_getElem? found)).symm.trans rethrown
  | joined attempt =>
      simp only [startedEffect, made]
      exact commitCalled_of_poisoned blameless.callsBackend thrown rethrown

-- What a step does to the transaction

@[simp]
theorem admitted_transaction (adoption : Adoption) (request : ℕ)
    : (adoption.admitted request).transaction = adoption.transaction := by
  rw [admitted]
  split
  · split <;> rfl
  · split <;> rfl
  · rfl

@[simp]
theorem moveTail_transaction (adoption : Adoption)
    : adoption.moveTail.transaction = adoption.transaction := by
  rw [moveTail]
  split <;> rfl

theorem adopt_transaction {actor : ℕ} (able : adoption.canAdopt actor = true)
    : (adoption.adopt config actor).transaction = commit config adoption.transaction := by
  rw [adopt, if_pos able]
  dsimp only
  split <;> rfl

/-- The transaction takes some actions, none of them a commit call. -/
def Performs (config : Config) (state next : State) : Prop :=
  ∃ actions : List Action,
    (∀ action ∈ actions, action ≠ .commit) ∧ next = runAll (step config) state actions

theorem Performs.refl (state : State) : Performs config state state :=
  ⟨[], List.forall_mem_nil _, rfl⟩

theorem Performs.trans {state middle next : State} (first : Performs config state middle)
    (second : Performs config middle next)
    : Performs config state next := by
  obtain ⟨actions, noCommit, rfl⟩ := first
  obtain ⟨later, noLater, rfl⟩ := second
  exact ⟨actions ++ later, List.forall_mem_append.mpr ⟨noCommit, noLater⟩,
    (runAll_append _ _ _ _).symm⟩

/-- What goes on behind an action only pushes continuations. -/
theorem perform_performs {action : Action} (noCommit : action ≠ .commit)
    {continue_ : Adoption → Adoption}
    (continues : ∀ taken : Adoption, (continue_ taken).transaction = taken.transaction)
    : Performs config adoption.transaction
        (adoption.perform config action continue_).transaction := by
  refine ⟨[action], List.forall_mem_singleton.mpr noCommit, ?_⟩
  change _ = step config adoption.transaction action
  rw [perform, step]
  cases step? config adoption.transaction action with
  | none => rfl
  | some next => exact continues _

theorem resumeAttempt_performs (adoption : Adoption) (attempt : ℕ)
    : Performs config adoption.transaction (adoption.resumeAttempt config attempt).transaction := by
  refine perform_performs (by simp) fun taken => ?_
  split <;> rfl

theorem proofSettled_performs (adoption : Adoption) (request : ℕ) (attempts : List ℕ)
    : Performs config adoption.transaction
        (adoption.proofSettled config request attempts).transaction := by
  have returned : Performs config adoption.transaction
      (adoption.moveTail.returnValidation config request).transaction := by
    rw [← moveTail_transaction adoption]
    refine perform_performs (by simp) fun taken => ?_
    split
    · split <;> rfl
    · rfl
  rw [Adoption.proofSettled]
  generalize adoption.moveTail.returnValidation config request = middle at returned
  induction attempts generalizing middle with
  | nil => exact returned
  | cons attempt rest ih => exact ih _ (returned.trans (resumeAttempt_performs _ attempt))

/-- Every continuation but the one that adopts. -/
theorem runJob_performs (adoption : Adoption) {job : Job}
    (other : ∀ actor, job ≠ .selectActorCandidate actor)
    : Performs config adoption.transaction (adoption.runJob config job).transaction := by
  cases job with
  | settleProof | validateWorldBranch | prepareCandidateOutput | relayAttempt | outcomeSettled =>
      exact .refl _
  | startProof | finishProof | finishCommit | settleAttempt =>
      exact perform_performs (by simp) fun _ => rfl
  | resumeValidate request =>
      exact perform_performs (by simp) fun taken => admitted_transaction taken request
  | proofSettled request attempts => exact proofSettled_performs adoption request attempts
  | selectActorCandidate actor => exact absurd rfl (other actor)
  | startAttempt attempt =>
      refine perform_performs (by simp) fun taken => ?_
      split
      · split <;> rfl
      · rfl
  | resumeAttempt attempt => exact resumeAttempt_performs adoption attempt

theorem answerProof_transaction (adoption : Adoption) (returned : Except String ResourceValidation)
    : (adoption.answerProof returned).transaction = adoption.transaction := by
  rw [answerProof]
  split
  · split
    · split <;> rfl
    · rfl
  · rfl

theorem answerCommit_transaction (adoption : Adoption) (result : Except Thrown Unit)
    : (adoption.answerCommit result).transaction = adoption.transaction := by
  rw [answerCommit]
  split
  · split <;> rfl
  · rfl

/-- Every step performs actions of the transaction, or it runs the continuation in which an Actor
call commits.
-/
theorem advance_cases (config : Config) (adoption : Adoption) (label : AdoptionStep)
    : Performs config adoption.transaction (adoption.advance config label).transaction
      ∨ ∃ actor rest,
          adoption.queue = .selectActorCandidate actor :: rest
          ∧ (adoption.advance config label).transaction = commit config adoption.transaction := by
  have validates (query : Option ℕ)
      : Performs config adoption.transaction (adoption.validate config query).transaction :=
    perform_performs (by simp) fun taken => admitted_transaction taken _
  cases label with
  | prepare => exact .inl (validates none)
  | validate query => exact .inl (validates query)
  | answerProof returned => exact .inl (answerProof_transaction adoption returned ▸ .refl _)
  | answerCommit result => exact .inl (answerCommit_transaction adoption result ▸ .refl _)
  | other action =>
      rw [advance]
      split
      · exact .inl (.refl _)
      next allowed =>
        refine .inl (perform_performs ?_ fun _ => rfl)
        rintro rfl
        exact allowed rfl
  | run =>
      rw [advance, run]
      cases queue : adoption.queue with
      | nil => exact .inl (.refl _)
      | cons job rest =>
          by_cases adopts : ∃ actor, job = .selectActorCandidate actor
          · obtain ⟨actor, rfl⟩ := adopts
            by_cases able : Adoption.canAdopt { adoption with queue := rest } actor = true
            · exact .inr ⟨actor, rest, rfl, adopt_transaction able⟩
            · dsimp only [runJob]
              rw [adopt, if_neg able]
              exact .inl (.refl _)
          · exact .inl (runJob_performs { adoption with queue := rest }
              fun actor same => adopts ⟨actor, same⟩)

end Adoption

end SpeculativeAction.EffectTransaction
