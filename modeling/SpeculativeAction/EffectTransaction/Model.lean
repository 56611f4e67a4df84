import SpeculativeAction.Settlement
import SpeculativeAction.Library.TransitionSystem

/-! One sealed effect transaction. Each asynchronous operation is split at its await
points; a promise that has settled may resume its waiters at any later step, so every
order of callbacks and continuations is one list of actions.
-/

namespace SpeculativeAction.EffectTransaction

open SpeculativeAction.Library

/-- Lifecycle of a transaction; a sealed one starts at `sealed`. -/
inductive EffectTransactionState where
  | begun | executing | sealing | sealed | validating | validated | committing | committed
  | aborting | aborted | poisoned | failed
deriving DecidableEq, Repr

namespace EffectTransactionState

/-- The spelling used in error messages. -/
def text : EffectTransactionState → String
  | begun => "begun"
  | executing => "executing"
  | sealing => "sealing"
  | sealed => "sealed"
  | validating => "validating"
  | validated => "validated"
  | committing => "committing"
  | committed => "committed"
  | aborting => "aborting"
  | aborted => "aborted"
  | poisoned => "poisoned"
  | failed => "failed"

/-- The two states teardown leaves alone. -/
def isTerminal : EffectTransactionState → Bool
  | committed | poisoned => true
  | _ => false

end EffectTransactionState

inductive EffectCommitDisposition where
  | recoverable | poisoned
deriving DecidableEq, Repr

/-- A commit failure whose disposition decides whether authoritative execution may begin. -/
structure EffectCommitFailure where
  disposition : EffectCommitDisposition
  message : String
  resolutionCause : Option ResolutionCause := none
deriving DecidableEq, Repr

/-- What a rejected promise carries: an unclassified error or a classified failure. -/
inductive Thrown where
  | plain (message : String)
  | failure (failure : EffectCommitFailure)
deriving DecidableEq, Repr

/-- Classify an error; a failure that already carries its disposition keeps it. -/
def effectCommitFailure (error : Thrown) (disposition : EffectCommitDisposition)
    (message : Option String := none) (resolutionCause : Option ResolutionCause := none)
    : EffectCommitFailure :=
  match error with
  | .failure failure => failure
  | .plain text => { disposition, message := message.getD text, resolutionCause }

/-- The backend's effect was not undone and authoritative execution may not begin. -/
def isPoisonedEffectCommit (failure : EffectCommitFailure) : Bool :=
  failure.disposition == .poisoned

/-- One completed freshness check. -/
inductive ResourceValidation where
  | valid
  | stale (cause : ResolutionCause)
  | indeterminate (cause : ResolutionCause)
deriving DecidableEq, Repr

namespace ResourceValidation

def isValid : ResourceValidation → Bool
  | valid => true
  | _ => false

def cause? : ResourceValidation → Option ResolutionCause
  | valid => none
  | stale cause | indeterminate cause => some cause

end ResourceValidation

private def freshness (code : String) (detail : Option String := none) : ResolutionCause :=
  { stage := .freshness, code, detail }

/-- The part of the sealed branch and its route that the lifecycle reads. `atomic` is a
shared branch with `validateAndCommit`.
-/
structure Config where
  id : String
  shared : Bool
  inputsOnly : Bool
  validates : Bool
  atomic : Bool
  reconstructs : Bool
  takesInputs : Bool
deriving DecidableEq, Repr

/-- What a check settles to, given what its callback returned or threw. A callback that
throws is indeterminate; without a callback only an exclusive branch is valid.
-/
def validateWorldBranch (validates shared : Bool) (returned : Except String ResourceValidation)
    : ResourceValidation :=
  if validates then
    match returned with
    | .ok validation => validation
    | .error detail => .indeterminate (freshness "validation_failed" detail)
  else if shared then .indeterminate (freshness "validation_unavailable")
  else .valid

/-- One attempt of the shared commit: `Promise.resolve().then(apply).catch(…)`. -/
inductive AttemptPhase where
  /-- `apply` has not started. -/
  | scheduled
  /-- `apply` awaits the validation pending when it started. -/
  | awaiting (request : Option ℕ)
  /-- The backend commit callback is running. -/
  | invoking
  /-- `apply` is done and the handler of its failure has not run. -/
  | applied (result : Except Thrown Unit)
  | settled (result : Except EffectCommitFailure Unit)
deriving DecidableEq, Repr

namespace AttemptPhase

def isSettled : AttemptPhase → Bool
  | settled _ => true
  | _ => false

end AttemptPhase

/-- One validation request; `query` is the reconstructed query it proves, if any. -/
inductive RequestPhase where
  /-- Waits for a commit attempt reserved before it. -/
  | joining (attempt : ℕ)
  | queued
  /-- The proof callback is running; `released` was read when it started. -/
  | proving (released : Bool)
  /-- The pending promise is resolved, its caller has not resumed. -/
  | proved (validation : ResourceValidation)
  | returned (validation : ResourceValidation)
deriving DecidableEq, Repr

structure Request where
  query : Option ℕ
  phase : RequestPhase
deriving DecidableEq, Repr

namespace RequestPhase

/-- The promise of the request has resolved. -/
def isResolved : RequestPhase → Bool
  | proved _ | returned _ => true
  | _ => false

/-- The lane tracks the request: admitted and not resolved. -/
def isTracked : RequestPhase → Bool
  | queued | proving _ => true
  | _ => false

end RequestPhase

/-- The lane runs its tasks one at a time, in the order they were enqueued. -/
inductive LaneTask where
  | validate (request : ℕ)
  | close
deriving DecidableEq, Repr

/-- Progress of the single teardown. -/
inductive ClosePhase where
  | queued | draining | disposingQueries | disposing | finished
deriving DecidableEq, Repr

inductive LeasePhase where
  | held | releasing | released
deriving DecidableEq, Repr

/-- One reconstructed query: whether it has a proof of its own, whether its release is
still registered with the transaction, and how far that release is.
-/
structure Query where
  proof : Bool
  registered : Bool
  lease : LeasePhase
deriving DecidableEq, Repr

inductive ReconstructionPhase where
  | running
  /-- The result could not be retained; the query behind it is being released. -/
  | discarding (query : ℕ)
  | settled
deriving DecidableEq, Repr

inductive TransferPhase where
  | taking | disposing | settled
deriving DecidableEq, Repr

/-- A reconstruction that produced a query: which callbacks it has and whether its output
could be cloned.
-/
structure Reconstruction where
  validates : Bool
  releases : Bool
  cloned : Bool
deriving DecidableEq, Repr

/-- One call of `commit`: rejected at once, or bound to an attempt it started or joined. -/
inductive CommitCall where
  | rejected (error : Thrown)
  | joined (attempt : ℕ)
deriving DecidableEq, Repr

/-- What the backend sees and what its proofs report, in order. A commit records the
attempt behind it and the state it was decided in.
-/
inductive BackendCall where
  | commitStarted (attempt : ℕ) (state : EffectTransactionState)
  | commitEnded (attempt : ℕ) (result : Except Thrown Unit)
  | sourceValidated (validation : ResourceValidation)
  | queryValidated (validation : ResourceValidation)
  | disposeStarted
  | disposeEnded
deriving DecidableEq, Repr

/-- The closure variables of one sealed transaction, every operation in flight, and the
backend calls made so far.
-/
structure State where
  stateValue : EffectTransactionState := .sealed
  validation : Option ResourceValidation := none
  validationPromise : Option ℕ := none
  outcome : Option ℕ := none
  attempts : List AttemptPhase := []
  requests : List Request := []
  lane : List LaneTask := []
  closeTask : Option ClosePhase := none
  inputTransfer : Option TransferPhase := none
  queries : List Query := []
  reconstructions : List ReconstructionPhase := []
  commits : List CommitCall := []
  calls : List BackendCall := []
deriving DecidableEq, Repr

namespace State

/-- The lane no longer admits work. -/
def isSealed (state : State) : Bool :=
  state.closeTask.isSome

def setAttempt (state : State) (attempt : ℕ) (phase : AttemptPhase) : State :=
  { state with attempts := state.attempts.set attempt phase }

def setRequest (state : State) (request : ℕ) (phase : RequestPhase) : State :=
  {
    state with
    requests := state.requests.modify request fun current => { current with phase }
  }

def setQuery (state : State) (query : ℕ) (lease : LeasePhase) (registered : Bool) : State :=
  {
    state with
    queries := state.queries.modify query fun current => { current with lease, registered }
  }

/-- The latest completed source validation authorises a commit. -/
def latestValid (state : State) : Bool :=
  state.validation.any (·.isValid)

end State

section Validate

/-- The second half of `validate`: refuse a retired transaction, else queue a fresh proof. -/
def admitValidation (state : State) (request : ℕ) : State :=
  if state.isSealed || state.stateValue ∈ [.aborted, .aborting, .poisoned, .failed] then
    state.setRequest request
      (.returned (.indeterminate (freshness "transaction_unavailable")))
  else
    {
      state.setRequest request .queued with
      lane := state.lane ++ [.validate request]
      validationPromise := some request
    }

/-- Whether the request may be made: a query proof needs a query that has one. -/
def canRequest (state : State) (query : Option ℕ) : Bool :=
  query.all fun query => state.queries[query]?.any (·.proof)

/-- Call `validate`. A reserved commit owns its proof window, so the request waits for it. -/
def validate (state : State) (query : Option ℕ) : Option State :=
  if canRequest state query then
    let request := state.requests.length
    let called := { state with requests := state.requests ++ [⟨query, .queued⟩] }
    match state.outcome with
    | some attempt =>
        if !state.isSealed && state.stateValue ≠ .committed then
          some (called.setRequest request (.joining attempt))
        else
          some (admitValidation called request)
    | none => some (admitValidation called request)
  else
    none

/-- The attempt a request waits for has settled. -/
def resumeValidate (state : State) (request : ℕ) : Option State :=
  match state.requests[request]? with
  | some ⟨_, .joining attempt⟩ =>
      if state.attempts[attempt]?.any (·.isSettled) then some (admitValidation state request)
      else none
  | _ => none

/-- The lane reaches the request and calls its proof. -/
def startProof (state : State) (request : ℕ) : Option State :=
  match state.requests[request]? with
  | some ⟨query, .queued⟩ =>
      if state.lane.head? = some (.validate request) then
        let released := query.any fun query =>
          state.queries[query]?.any fun entry => entry.lease ≠ .held
        let opened :=
          if query.isNone && (state.stateValue == .sealed || state.stateValue == .validated) then
            { state with stateValue := .validating }
          else
            state
        some (opened.setRequest request (.proving released))
      else
        none
  | _ => none

/-- The result of a proof: a released query is not proved at all. -/
def proofResult (config : Config) (query : Option ℕ) (released : Bool)
    (returned : Except String ResourceValidation)
    : ResourceValidation :=
  match query with
  | none => validateWorldBranch config.validates config.shared returned
  | some _ =>
      if released then .indeterminate (freshness "query_disposed")
      else validateWorldBranch true config.shared returned

/-- The state after a source proof: only a transaction still validating is decided. -/
def provedValue (current : EffectTransactionState) (result : ResourceValidation)
    : EffectTransactionState :=
  if current = .validating then
    if result.isValid then .validated else .sealed
  else current

/-- A source proof decides the state; a query proof cannot authorise the source output. -/
def recordProof (state : State) (query : Option ℕ) (result : ResourceValidation) : State :=
  match query with
  | none =>
      {
        state with
        validation := some result
        stateValue := provedValue state.stateValue result
        calls := state.calls ++ [.sourceValidated result]
      }
  | some _ => { state with calls := state.calls ++ [.queryValidated result] }

/-- The proof callback settles and the lane moves on. -/
def finishProof (config : Config) (state : State) (request : ℕ)
    (returned : Except String ResourceValidation)
    : Option State :=
  match state.requests[request]? with
  | some ⟨query, .proving released⟩ =>
      let result := proofResult config query released returned
      some {
        (recordProof state query result).setRequest request (.proved result) with
        lane := state.lane.tail
      }
  | _ => none

/-- The caller of `validate` resumes and withdraws its own pending promise. -/
def returnValidation (state : State) (request : ℕ) : Option State :=
  match state.requests[request]? with
  | some ⟨_, .proved validation⟩ =>
      let promise :=
        if state.validationPromise = some request then none else state.validationPromise
      some {
        state.setRequest request (.returned validation) with
        validationPromise := promise
      }
  | _ => none

end Validate

section Commit

/-- The unclassified error of a commit that nothing has validated. -/
def unvalidatedError (config : Config) : Thrown :=
  .plain ("effect transaction " ++ config.id ++ " requires successful validation before commit")

/-- How a call of `commit` begins: `none` starts a new attempt. -/
def commitCall (config : Config) (state : State) : Option CommitCall :=
  if config.inputsOnly then
    some (.rejected (.failure (effectCommitFailure (.plain "input_only_branch") .recoverable)))
  else
    match state.outcome with
    | some attempt => some (.joined attempt)
    | none =>
        if state.isSealed then
          some (.rejected (.failure
            (effectCommitFailure (.plain "effect transaction resources are retired")
              .recoverable)))
        else if state.validationPromise.isNone && !state.latestValid then
          some (.rejected (unvalidatedError config))
        else
          none

/-- Call `commit`. A new attempt is reserved before the call yields. -/
def commit (config : Config) (state : State) : State :=
  match commitCall config state with
  | some call => { state with commits := state.commits ++ [call] }
  | none =>
      {
        state with
        outcome := some state.attempts.length
        attempts := state.attempts ++ [.scheduled]
        commits := state.commits ++ [.joined state.attempts.length]
      }

/-- `apply` starts and awaits the validation that is pending now. -/
def startAttempt (state : State) (attempt : ℕ) : Option State :=
  match state.attempts[attempt]? with
  | some .scheduled => some (state.setAttempt attempt (.awaiting state.validationPromise))
  | _ => none

/-- The handler around the effect: classify the error and reopen or poison. -/
def rejectEffect (state : State) (attempt : ℕ) (error : Thrown) : State :=
  let failure := effectCommitFailure error .poisoned
    (some "effect commit failed without proof that its side effects were restored")
  {
    state.setAttempt attempt (.applied (.error (.failure failure))) with
    stateValue := if failure.disposition = .poisoned then .poisoned else .sealed
    validation := none
  }

/-- The failure of an attempt that may not start its effect. -/
def unauthorisedFailure (config : Config) (state : State) : EffectCommitFailure :=
  effectCommitFailure
    (.plain ("effect transaction " ++ config.id ++ " cannot commit from "
      ++ state.stateValue.text))
    .recoverable none (if state.latestValid then none else state.validation.bind (·.cause?))

/-- The awaited validation has resolved: start the effect or fail before it. -/
def resumeAttempt (config : Config) (state : State) (attempt : ℕ) : Option State :=
  match state.attempts[attempt]? with
  | some (.awaiting request) =>
      if request.all fun request => state.requests[request]?.any (·.phase.isResolved) then
        if state.latestValid && state.stateValue == .validated then
          some {
            state.setAttempt attempt .invoking with
            stateValue := .committing
            calls := state.calls ++ [.commitStarted attempt state.stateValue]
          }
        else
          some (rejectEffect state attempt (.failure (unauthorisedFailure config state)))
      else
        none
  | _ => none

/-- The backend commit callback settles. -/
def finishCommit (state : State) (attempt : ℕ) (result : Except Thrown Unit)
    : Option State :=
  match state.attempts[attempt]? with
  | some .invoking =>
      let called := { state with calls := state.calls ++ [.commitEnded attempt result] }
      match result with
      | .ok _ =>
          some {
            called.setAttempt attempt (.applied (.ok ())) with
            stateValue := .committed
          }
      | .error error => some (rejectEffect called attempt error)
  | _ => none

/-- The attempt's promise settles; a recoverable failure permits another attempt. -/
def settleAttempt (state : State) (attempt : ℕ) : Option State :=
  match state.attempts[attempt]? with
  | some (.applied (.ok _)) => some (state.setAttempt attempt (.settled (.ok ())))
  | some (.applied (.error error)) =>
      let failure := effectCommitFailure error .poisoned
      some {
        state.setAttempt attempt (.settled (.error failure)) with
        outcome := if failure.disposition = .recoverable then none else state.outcome
      }
  | _ => none

end Commit

section Borrowers

/-- Call `takeCommittedInputs`; only the first call on a committed transaction transfers. -/
def takeCommittedInputs (config : Config) (state : State) : Option State :=
  if config.takesInputs then
    if state.isSealed || state.stateValue ≠ .committed || state.inputTransfer.isSome then
      some state
    else
      some { state with inputTransfer := some .taking }
  else
    none

/-- The backend hands its inputs over; a transaction sealed meanwhile disposes them. -/
def inputsTaken (state : State) (retained : Bool) : Option State :=
  if state.inputTransfer = some .taking then
    some {
      state with
      inputTransfer := some (if state.isSealed && retained then .disposing else .settled)
    }
  else
    none

def inputsDisposed (state : State) : Option State :=
  if state.inputTransfer = some .disposing then
    some { state with inputTransfer := some .settled }
  else
    none

/-- Call `reconstruct`; borrowing sealed inputs grants no commit authority. -/
def reconstruct (config : Config) (state : State) : Option State :=
  if config.shared && config.reconstructs then
    if state.isSealed
        || state.stateValue ∉ [.sealed, .validating, .validated, .committed] then
      some state
    else
      some { state with reconstructions := state.reconstructions ++ [.running] }
  else
    none

/-- The backend reconstruction settles, with a query or without one. An atomic branch
keeps its proof; a result that cannot be cloned is released before the call fails.
-/
def reconstructed (config : Config) (state : State) (task : ℕ)
    (result : Option Reconstruction)
    : Option State :=
  if state.reconstructions[task]? = some .running then
    match result with
    | none => some { state with reconstructions := state.reconstructions.set task .settled }
    | some result =>
        if result.cloned then
          some {
            state with
            reconstructions := state.reconstructions.set task .settled
            queries := state.queries
              ++ [⟨result.validates && !config.atomic, result.releases, .held⟩]
          }
        else
          some {
            state with
            reconstructions := state.reconstructions.set task (.discarding state.queries.length)
            queries := state.queries ++ [⟨false, result.releases, .releasing⟩]
          }
  else
    none

/-- A failed reconstruction ends once its query is released. -/
def discarded (state : State) (task : ℕ) : Option State :=
  match state.reconstructions[task]? with
  | some (.discarding query) =>
      if state.queries[query]?.any (·.lease == .released) then
        some { state with reconstructions := state.reconstructions.set task .settled }
      else
        none
  | _ => none

/-- Dispose a query; only one with a release offers this, and only its first call counts. -/
def disposeQuery (state : State) (query : ℕ) : Option State :=
  match state.queries[query]? with
  | some ⟨_, true, .held⟩ => some (state.setQuery query .releasing true)
  | _ => none

/-- The release callback settles and the query leaves the registered resources. -/
def queryReleased (state : State) (query : ℕ) : Option State :=
  match state.queries[query]? with
  | some ⟨_, _, .releasing⟩ => some (state.setQuery query .released false)
  | _ => none

end Borrowers

section Teardown

/-- The state `abort` leaves: an open transaction that no commit has reserved is aborting. -/
def abortingValue (state : State) : EffectTransactionState :=
  if !state.isSealed && !state.stateValue.isTerminal && state.outcome.isNone then .aborting
  else state.stateValue

/-- Call `abort` or `dispose`: seal the lane and queue the one teardown behind its tasks. -/
def abort (state : State) : State :=
  {
    state with
    stateValue := abortingValue state
    closeTask := some (state.closeTask.getD .queued)
    lane := if state.isSealed then state.lane else state.lane ++ [.close]
  }

/-- The lane reaches the teardown. -/
def startClose (state : State) : Option State :=
  if state.closeTask = some .queued && state.lane.head? = some .close then
    some { state with closeTask := some .draining }
  else
    none

/-- Every promise the lane tracks has settled. -/
def isDrained (state : State) : Bool :=
  state.attempts.all (·.isSettled)
    && state.requests.all (!·.phase.isTracked)
    && state.reconstructions.all (· == .settled)
    && state.inputTransfer.all (· == .settled)

/-- Borrowers have drained: release every registered query. -/
def drained (state : State) : Option State :=
  if state.closeTask = some .draining && isDrained state then
    some {
      state with
      closeTask := some .disposingQueries
      queries := state.queries.map fun query =>
        if query.registered && query.lease == .held then { query with lease := .releasing }
        else query
    }
  else
    none

/-- No query is registered any more: dispose the backend branch. -/
def queriesDisposed (state : State) : Option State :=
  if state.closeTask = some .disposingQueries && state.queries.all (!·.registered) then
    some {
      state with
      closeTask := some .disposing
      calls := state.calls ++ [.disposeStarted]
    }
  else
    none

/-- The backend dispose callback settles, either way. -/
def backendDisposed (state : State) : Option State :=
  if state.closeTask = some .disposing then
    some {
      state with
      closeTask := some .finished
      stateValue := if state.stateValue.isTerminal then state.stateValue else .aborted
      calls := state.calls ++ [.disposeEnded]
    }
  else
    none

end Teardown

/-- A call of the public operations, or one callback or continuation that runs. -/
inductive Action where
  | validate (query : Option ℕ)
  | resumeValidate (request : ℕ)
  | startProof (request : ℕ)
  | finishProof (request : ℕ) (returned : Except String ResourceValidation)
  | returnValidation (request : ℕ)
  | commit
  | startAttempt (attempt : ℕ)
  | resumeAttempt (attempt : ℕ)
  | finishCommit (attempt : ℕ) (result : Except Thrown Unit)
  | settleAttempt (attempt : ℕ)
  | takeCommittedInputs
  | inputsTaken (retained : Bool)
  | inputsDisposed
  | reconstruct
  | reconstructed (task : ℕ) (result : Option Reconstruction)
  | discarded (task : ℕ)
  | disposeQuery (query : ℕ)
  | queryReleased (query : ℕ)
  | abort
  | startClose
  | drained
  | queriesDisposed
  | backendDisposed
deriving DecidableEq, Repr

/-- One action, when it is enabled. -/
def step? (config : Config) (state : State) : Action → Option State
  | .validate query => validate state query
  | .resumeValidate request => resumeValidate state request
  | .startProof request => startProof state request
  | .finishProof request returned => finishProof config state request returned
  | .returnValidation request => returnValidation state request
  | .commit => some (commit config state)
  | .startAttempt attempt => startAttempt state attempt
  | .resumeAttempt attempt => resumeAttempt config state attempt
  | .finishCommit attempt result => finishCommit state attempt result
  | .settleAttempt attempt => settleAttempt state attempt
  | .takeCommittedInputs => takeCommittedInputs config state
  | .inputsTaken retained => inputsTaken state retained
  | .inputsDisposed => inputsDisposed state
  | .reconstruct => reconstruct config state
  | .reconstructed task result => reconstructed config state task result
  | .discarded task => discarded state task
  | .disposeQuery query => disposeQuery state query
  | .queryReleased query => queryReleased state query
  | .abort => some (abort state)
  | .startClose => startClose state
  | .drained => drained state
  | .queriesDisposed => queriesDisposed state
  | .backendDisposed => backendDisposed state

/-- One action; an action that is not enabled changes nothing. -/
def step (config : Config) (state : State) (action : Action) : State :=
  (step? config state action).getD state

/-- The transaction after a list of actions, from the freshly sealed one. -/
def afterActions (config : Config) (actions : List Action) : State :=
  runAll (step config) {} actions

end SpeculativeAction.EffectTransaction
