import Mathlib.Data.List.Nodup
import SpeculativeAction.EffectTransaction.ActorAdoption
import SpeculativeAction.Library.JobQueue

/-! Poison only after an attempted effect. An Actor call whose proof was valid commits a fixed
number of continuations after the promise of its proof has settled. A later proof takes as many
before it is no longer pending, and a failed attempt takes as many before it is withdrawn, so the
commit always finds an outcome, a pending validation or its own valid one.
-/

namespace SpeculativeAction.EffectTransaction

open SpeculativeAction.Library

variable {config : Config} {state : State} {request : ℕ} {entry : Request}

-- Chains of continuations

namespace Job

/-- How many continuations follow until an Actor call adopts. -/
def adoptsIn : Job → Option ℕ
  | .validateWorldBranch _ => some 2
  | .prepareCandidateOutput _ => some 1
  | .selectActorCandidate _ => some 0
  | _ => none

/-- How many follow until a validation is no longer pending or an attempt is settled. -/
def withdrawsIn : Job → Option ℕ
  | .finishProof _ _ | .finishCommit _ _ => some 2
  | .settleProof _ | .relayAttempt _ => some 1
  | .proofSettled _ _ | .settleAttempt _ => some 0
  | _ => none

/-- How many follow until a request that waited for an outcome is admitted. -/
def admitsIn : Job → Option ℕ
  | .outcomeSettled _ => some 1
  | .resumeValidate _ => some 0
  | _ => none

def returnsIn : Job → Option ℕ
  | .proofSettled _ _ => some 0
  | _ => none

def resumesIn : Job → Option ℕ
  | .resumeAttempt _ => some 0
  | _ => none

/-- The continuations that the validation lane waits for. -/
def isLane : Job → Bool
  | .startProof _ | .finishProof _ _ | .settleProof _ | .proofSettled _ _ => true
  | _ => false

/-- The continuations that a commit attempt waits for. -/
def isAttempt : Job → Bool
  | .startAttempt _ | .resumeAttempt _ | .finishCommit _ _ | .relayAttempt _
  | .settleAttempt _ => true
  | _ => false

theorem adoptsIn_le {job : Job} {count : ℕ} (follow : job.adoptsIn = some count) : count ≤ 2 := by
  cases job <;> simp [adoptsIn] at follow <;> omega

end Job

/-- Which chains of the queue end first. -/
structure Ordered (queue : List Job) : Prop where
  /-- An Actor call adopts before a later proof or a failed attempt is withdrawn. -/
  adoptions : Outruns Job.adoptsIn Job.withdrawsIn queue
  /-- Requests that waited are admitted before any later adoption. -/
  admissions : Outruns Job.admitsIn Job.adoptsIn queue
  /-- The caller of `validate` resumes before an attempt that found its proof settled. -/
  returns : Outruns Job.returnsIn Job.resumesIn queue

namespace Ordered

variable {job next : Job} {rest queue : List Job}

theorem nil : Ordered [] := ⟨.nil, .nil, .nil⟩

theorem tail (ordered : Ordered (job :: rest)) : Ordered rest :=
  ⟨ordered.adoptions.tail, ordered.admissions.tail, ordered.returns.tail⟩

/-- A continuation of no chain may come at any time. -/
theorem push_plain (ordered : Ordered queue) (adopts : next.adoptsIn = none)
    (withdraws : next.withdrawsIn = none) (admits : next.admitsIn = none)
    (returns : next.returnsIn = none)
    : Ordered (queue ++ [next]) where
  adoptions := ordered.adoptions.push fun _ _ => ⟨by simp [withdraws], by simp [adopts]⟩
  admissions := ordered.admissions.push fun _ _ => ⟨by simp [adopts], by simp [admits]⟩
  returns := by
    refine ordered.returns.push fun other _ => ⟨?_, by simp [returns]⟩
    intro left right reaches resumes
    cases other <;> simp [Job.returnsIn] at reaches
    exact reaches ▸ Nat.zero_le right

/-- An answer of a callback comes behind every Actor call that is about to adopt. -/
theorem push_answer (ordered : Ordered queue) (adopts : next.adoptsIn = none)
    (withdraws : next.withdrawsIn = some 2) (admits : next.admitsIn = none)
    (returns : next.returnsIn = none) (resumes : next.resumesIn = none)
    : Ordered (queue ++ [next]) where
  adoptions := by
    refine ordered.adoptions.push fun other _ => ⟨?_, by simp [adopts]⟩
    intro left right follows last
    obtain rfl := Option.some.inj (withdraws.symm.trans last)
    exact Job.adoptsIn_le follows
  admissions := ordered.admissions.push fun _ _ => ⟨by simp [adopts], by simp [admits]⟩
  returns := ordered.returns.push fun _ _ => ⟨by simp [resumes], by simp [returns]⟩

/-- A failed attempt is withdrawn once no Actor call is about to adopt. -/
theorem push_withdrawal (ordered : Ordered queue) (adopts : next.adoptsIn = none)
    (none_ : ∀ other ∈ queue, other.adoptsIn = none) (admits : next.admitsIn = none)
    (returns : next.returnsIn = none) (resumes : next.resumesIn = none)
    : Ordered (queue ++ [next]) where
  adoptions :=
    ordered.adoptions.push fun other member => ⟨by simp [none_ other member], by simp [adopts]⟩
  admissions := ordered.admissions.push fun _ _ => ⟨by simp [adopts], by simp [admits]⟩
  returns := ordered.returns.push fun _ _ => ⟨by simp [resumes], by simp [returns]⟩

/-- An Actor call goes on while nothing is about to be withdrawn. -/
theorem push_adoption (ordered : Ordered queue) (actor : ℕ)
    (none_ : ∀ other ∈ queue, other.withdrawsIn = none)
    : Ordered (queue ++ [.validateWorldBranch actor]) where
  adoptions := by
    refine ordered.adoptions.push fun other member => ⟨?_, by simp [none_ other member]⟩
    simp [Job.withdrawsIn]
  admissions := by
    refine ordered.admissions.push fun other _ => ⟨?_, by simp [Job.admitsIn]⟩
    intro left right follows last
    obtain rfl := Option.some.inj last
    cases other <;> simp [Job.admitsIn] at follows <;> omega
  returns := ordered.returns.push fun _ _ => ⟨by simp [Job.resumesIn], by simp [Job.returnsIn]⟩

/-- Requests that waited resume once no Actor call is about to adopt. -/
theorem push_admission (ordered : Ordered queue) (request : ℕ)
    (none_ : ∀ other ∈ queue, other.adoptsIn = none)
    : Ordered (queue ++ [.outcomeSettled request]) where
  adoptions :=
    ordered.adoptions.push fun _ _ => ⟨by simp [Job.withdrawsIn], by simp [Job.adoptsIn]⟩
  admissions := by
    refine ordered.admissions.push fun other member => ⟨by simp [Job.adoptsIn], ?_⟩
    simp [none_ other member]
  returns := ordered.returns.push fun _ _ => ⟨by simp [Job.resumesIn], by simp [Job.returnsIn]⟩

/-- A chain goes on. -/
theorem rotate (ordered : Ordered (job :: rest)) (adopts : Advances Job.adoptsIn job next)
    (withdraws : Advances Job.withdrawsIn job next) (admits : Advances Job.admitsIn job next)
    (returns : next.returnsIn = none) (resumes : next.resumesIn = none)
    : Ordered (rest ++ [next]) where
  adoptions := ordered.adoptions.rotate adopts withdraws
  admissions := ordered.admissions.rotate admits adopts
  returns := ordered.returns.rotate ⟨by simp [returns]⟩ ⟨by simp [resumes]⟩

/-- The promise of a request settles while no attempt is about to resume. -/
theorem settle {request : ℕ} {attempts : List ℕ} (ordered : Ordered (.settleProof request :: rest))
    (none_ : ∀ other ∈ rest, other.resumesIn = none)
    : Ordered (rest ++ [.proofSettled request attempts]) where
  adoptions := ordered.adoptions.rotate ⟨by simp [Job.adoptsIn]⟩
    ⟨by simp [Job.withdrawsIn]⟩
  admissions := ordered.admissions.rotate ⟨by simp [Job.admitsIn]⟩ ⟨by simp [Job.adoptsIn]⟩
  returns := by
    refine ordered.returns.tail.push fun other member => ⟨by simp [Job.resumesIn], ?_⟩
    simp [none_ other member]

end Ordered

-- The validation lane

/-- The request the lane works on and the ones that wait behind it. -/
structure Line (state : State) (first : ℕ) (rest : List ℕ) : Prop where
  distinct : (first :: rest).Nodup
  queued : ∀ request ∈ rest, ∃ query, state.requests[request]? = some ⟨query, .queued⟩
  last : state.validationPromise = (first :: rest).getLast?

/-- No proof of the source is running. -/
def Resting (state : State) : Prop :=
  state.stateValue = .sealed ∨ state.stateValue = .validated

/-- A commit would be authorised now. -/
structure Ready (state : State) : Prop where
  valid : state.latestValid = true
  validated : state.stateValue = .validated

/-- How far the lane is, with the continuations it waits for; `waits` gives the attempts that await
a promise.
-/
inductive Lane (waits : ℕ → List ℕ) (state : State) : Bool → List Job → Prop where
  | idle (lane : state.lane = []) (promise : state.validationPromise = none)
      (value : Resting state) : Lane waits state true []
  | queued {first : ℕ} {rest : List ℕ} {query : Option ℕ} (line : Line state first rest)
      (lane : state.lane = (first :: rest).map .validate)
      (found : state.requests[first]? = some ⟨query, .queued⟩) (value : Resting state)
      : Lane waits state false [.startProof first]
  | proving {first : ℕ} {rest : List ℕ} {query : Option ℕ} {released : Bool}
      {pending : List Job}
      (line : Line state first rest) (lane : state.lane = (first :: rest).map .validate)
      (found : state.requests[first]? = some ⟨query, .proving released⟩)
      (source : query = none → state.stateValue = .validating)
      (borrowed : query ≠ none → Resting state)
      (jobs : pending = [] ∨ ∃ returned, pending = [.finishProof first returned])
      : Lane waits state false pending
  | proved {first : ℕ} {rest : List ℕ} {query : Option ℕ} {validation : ResourceValidation}
      {pending : List Job} (line : Line state first rest) (lane : state.lane = rest.map .validate)
      (found : state.requests[first]? = some ⟨query, .proved validation⟩) (value : Resting state)
      (recorded : query = none → validation.isValid = true → Ready state)
      (jobs : pending = [.settleProof first] ∨ pending = [.proofSettled first (waits first)])
      : Lane waits state false pending

/-- The request is in the lane or its promise is pending. -/
def RequestPhase.isLined : RequestPhase → Bool
  | .queued | .proving _ | .proved _ => true
  | _ => false

/-- A request enters the lane. -/
structure Admits (state next : State) (request : ℕ) : Prop where
  fresh : ∀ entry, state.requests[request]? = some entry → entry.phase.isLined = false
  others : ∀ other, other ≠ request → next.requests[other]? = state.requests[other]?
  found : ∃ query, next.requests[request]? = some ⟨query, .queued⟩
  lane : next.lane = state.lane ++ [.validate request]
  promise : next.validationPromise = some request
  stateValue : next.stateValue = state.stateValue
  validation : next.validation = state.validation
  outcome : next.outcome = state.outcome

theorem Resting.of_eq {next : State} (resting : Resting state)
    (same : next.stateValue = state.stateValue)
    : Resting next := by
  rwa [Resting, same]

theorem Line.enter {next : State} {first : ℕ} {rest : List ℕ} (admits : Admits state next request)
    (line : Line state first rest) (found : state.requests[first]? = some entry)
    (lined : entry.phase.isLined = true)
    : Line next first (rest ++ [request]) ∧ first ≠ request := by
  have notFirst : first ≠ request := by
    rintro rfl
    exact Bool.false_ne_true ((admits.fresh entry found).symm.trans lined)
  have notRest : request ∉ rest := by
    intro member
    obtain ⟨query, waiting⟩ := line.queued request member
    exact Bool.false_ne_true ((admits.fresh _ waiting).symm.trans rfl)
  refine ⟨⟨?_, ?_, ?_⟩, notFirst⟩
  · rw [← List.cons_append]
    refine List.nodup_append.mpr ⟨line.distinct, List.nodup_singleton _, ?_⟩
    intro other member last isLast same
    obtain rfl := List.mem_singleton.mp isLast
    rcases List.mem_cons.mp member with rfl | later
    · exact notFirst same
    · exact notRest (same ▸ later)
  · intro other member
    rcases List.mem_append.mp member with earlier | last
    · rw [admits.others other (fun same => notRest (same ▸ earlier))]
      exact line.queued other earlier
    · rw [List.mem_singleton.mp last]
      exact admits.found
  · rw [admits.promise, ← List.cons_append, List.getLast?_concat]

/-- An admitted request goes to the end of the lane and starts at once behind a settled tail. -/
theorem Lane.enter {waits : ℕ → List ℕ} {next : State} {tail : Bool} {jobs : List Job}
    (lane : Lane waits state tail jobs) (admits : Admits state next request)
    : Lane waits next false (if tail then [.startProof request] else jobs) := by
  cases lane with
  | idle lane promise value =>
      obtain ⟨query, found⟩ := admits.found
      have line : Line next request [] :=
        ⟨List.nodup_singleton request, by simp, by simp [admits.promise]⟩
      refine .queued line ?_ found (value.of_eq admits.stateValue)
      rw [admits.lane, lane]
      rfl
  | queued line lane found value =>
      obtain ⟨grown, different⟩ := line.enter admits found rfl
      refine .queued grown ?_ ((admits.others _ different).trans found)
        (value.of_eq admits.stateValue)
      rw [admits.lane, lane]
      simp
  | proving line lane found source borrowed jobs =>
      obtain ⟨grown, different⟩ := line.enter admits found rfl
      refine .proving grown ?_ ((admits.others _ different).trans found)
        (fun own => admits.stateValue.trans (source own))
        (fun query => (borrowed query).of_eq admits.stateValue) jobs
      rw [admits.lane, lane]
      simp
  | proved line lane found value recorded jobs =>
      obtain ⟨grown, different⟩ := line.enter admits found rfl
      refine .proved grown ?_ ((admits.others _ different).trans found)
        (value.of_eq admits.stateValue) (fun own valid => ?_) jobs
      · rw [admits.lane, lane]
        simp
      · obtain ⟨latest, validated⟩ := recorded own valid
        refine ⟨?_, admits.stateValue.trans validated⟩
        rwa [State.latestValid, admits.validation]

/-- The promise of the request has resolved. -/
def State.hasResolved (state : State) (request : ℕ) : Bool :=
  state.requests[request]?.any fun entry => entry.phase.isResolved

/-- A step that leaves the commit attempts alone, and what has resolved. -/
structure Steady (state next : State) : Prop where
  outcome : next.outcome = state.outcome
  attempts : next.attempts = state.attempts
  resolved
    : ∀ request, state.hasResolved request = true → next.hasResolved request = true

theorem getElem?_setRequest (state : State) (request other : ℕ) (phase : RequestPhase)
    : (state.setRequest request phase).requests[other]?
      = (state.requests[other]?).map fun entry =>
          if request = other then { entry with phase } else entry := by
  rw [State.setRequest, List.getElem?_modify]
  rfl

theorem setRequest_found (found : state.requests[request]? = some entry) (phase : RequestPhase)
    : (state.setRequest request phase).requests[request]? = some { entry with phase } := by
  rw [getElem?_setRequest, found, Option.map_some, if_pos rfl]

/-- A request that moves on leaves everything else alone. -/
theorem Steady.of_setRequest {next : State} {phase : RequestPhase}
    (outcome : next.outcome = state.outcome) (attempts : next.attempts = state.attempts)
    (requests : next.requests = (state.setRequest request phase).requests)
    (found : state.requests[request]? = some entry)
    (onwards : entry.phase.isResolved = true → phase.isResolved = true)
    : Steady state next where
  outcome := outcome
  attempts := attempts
  resolved := by
    intro other resolved
    rw [State.hasResolved] at resolved ⊢
    rw [requests, getElem?_setRequest]
    by_cases same : request = other
    · subst same
      simp only [found, Option.any_some, Option.map_some, if_true] at resolved ⊢
      exact onwards resolved
    · simpa [same] using resolved

section LaneSteps

variable {waits : ℕ → List ℕ} {state : State} {first : ℕ} {rest : List ℕ} {query : Option ℕ}

/-- Other requests of the lane wait on while the first one moves. -/
theorem Line.move {next : State} {phase : RequestPhase} (line : Line state first rest)
    (requests : next.requests = (state.setRequest first phase).requests)
    (promise : next.validationPromise = state.validationPromise)
    : Line next first rest := by
  refine ⟨line.distinct, fun request member => ?_, promise.trans line.last⟩
  obtain ⟨query, waiting⟩ := line.queued request member
  have different : first ≠ request := by
    rintro rfl
    exact (List.nodup_cons.mp line.distinct).1 member
  exact ⟨query, by rw [requests, getElem?_setRequest, waiting]; simp [different]⟩

theorem startProof_eq (head : state.lane.head? = some (.validate first))
    (found : state.requests[first]? = some ⟨query, .queued⟩) (value : Resting state)
    : ∃ released,
        startProof state first
          = some {
              state.setRequest first (.proving released) with
              stateValue := if query = none then .validating else state.stateValue
            } := by
  rw [startProof, found]
  cases query with
  | none =>
      refine ⟨false, ?_⟩
      rcases value with same | same <;> simp [head, same, State.setRequest]
  | some query =>
      exact ⟨state.queries[query]?.any fun entry => entry.lease ≠ .held,
        by simp [head, State.setRequest]⟩

end LaneSteps

-- The reserved attempt

/-- How far the reserved attempt is, if there is one. -/
inductive Reserve where
  /-- Nothing is reserved, or the attempt has not started. -/
  | free
  | awaits (attempt request : ℕ)
  /-- What it awaits has settled. -/
  | resumes
  /-- It is past the check of its authority. -/
  | past

/-- The attempts that await the promise of a request. -/
def Reserve.waits : Reserve → ℕ → List ℕ
  | .awaits attempt request, settled => if settled = request then [attempt] else []
  | _, _ => []

/-- The attempt behind the outcome, with the continuations it waits for. Once it has committed or
poisoned the transaction, nothing is left to show.
-/
inductive AttemptAt (state : State) : Reserve → List Job → Prop where
  | unreserved (outcome : state.outcome = none) : AttemptAt state .free []
  | scheduled {attempt : ℕ} (outcome : state.outcome = some attempt)
      (phase : state.attempts[attempt]? = some .scheduled)
      : AttemptAt state .free [.startAttempt attempt]
  | awaiting {attempt request : ℕ} (outcome : state.outcome = some attempt)
      (phase : state.attempts[attempt]? = some (.awaiting (some request)))
      (pending : state.validationPromise = some request)
      : AttemptAt state (.awaits attempt request) []
  | resuming {attempt : ℕ} {awaited : Option ℕ} (outcome : state.outcome = some attempt)
      (phase : state.attempts[attempt]? = some (.awaiting awaited))
      (resolved : awaited.all state.hasResolved = true)
      : AttemptAt state .resumes [.resumeAttempt attempt]
  | invoking {attempt : ℕ} {jobs : List Job} (outcome : state.outcome = some attempt)
      (phase : state.attempts[attempt]? = some .invoking) (value : state.stateValue = .committing)
      (answer : jobs = [] ∨ ∃ result, jobs = [.finishCommit attempt result])
      : AttemptAt state .past jobs
  | failing {attempt : ℕ} {failure : EffectCommitFailure} {jobs : List Job}
      (outcome : state.outcome = some attempt)
      (phase : state.attempts[attempt]? = some (.applied (.error (.failure failure))))
      (recoverable : failure.disposition = .recoverable) (value : state.stateValue = .sealed)
      (withdrawal : jobs = [.relayAttempt attempt] ∨ jobs = [.settleAttempt attempt])
      : AttemptAt state .past jobs

/-- A step of the lane leaves the attempt where it is. -/
theorem AttemptAt.steady {next : State} {reserve : Reserve} {jobs : List Job}
    (attempt : AttemptAt state reserve jobs) (steady : Steady state next)
    (value : next.stateValue = state.stateValue ∨ reserve ≠ .past)
    (promise : next.validationPromise = state.validationPromise ∨ ∀ a r, reserve ≠ .awaits a r)
    : AttemptAt next reserve jobs := by
  cases attempt with
  | unreserved outcome => exact .unreserved (steady.outcome.trans outcome)
  | scheduled outcome phase =>
      exact .scheduled (steady.outcome.trans outcome) (steady.attempts ▸ phase)
  | awaiting outcome phase pending =>
      refine .awaiting (steady.outcome.trans outcome) (steady.attempts ▸ phase) ?_
      rcases promise with same | other
      · exact same.trans pending
      · exact absurd rfl (other _ _)
  | @resuming attempt awaited outcome phase resolved =>
      refine .resuming (steady.outcome.trans outcome) (steady.attempts ▸ phase) ?_
      cases awaited with
      | none => rfl
      | some request => exact steady.resolved request resolved
  | invoking outcome phase committing answer =>
      refine .invoking (steady.outcome.trans outcome) (steady.attempts ▸ phase) ?_ answer
      rcases value with same | other
      · exact same.trans committing
      · exact absurd rfl other
  | failing outcome phase recoverable reopened withdrawal =>
      refine .failing (steady.outcome.trans outcome) (steady.attempts ▸ phase) recoverable ?_
        withdrawal
      rcases value with same | other
      · exact same.trans reopened
      · exact absurd rfl other

-- The order of a whole run

/-- A retired, committed or poisoned transaction refuses no commit for lack of a validation. -/
def State.isClosed (state : State) : Bool := state.isSealed || state.stateValue.isTerminal

namespace Adoption

def laneJobs (adoption : Adoption) : List Job := adoption.queue.filter Job.isLane

def attemptJobs (adoption : Adoption) : List Job := adoption.queue.filter Job.isAttempt

/-- No validation is requested or under way. -/
structure Idle (adoption : Adoption) : Prop where
  lane : adoption.transaction.lane = []
  promise : adoption.transaction.validationPromise = none
  tail : adoption.tailSettled = true
  jobs : adoption.laneJobs = []

/-- What keeps every commit authorised as long as the transaction is open. -/
structure Orderly (reserve : Reserve) (adoption : Adoption) : Prop where
  attempt : AttemptAt adoption.transaction reserve adoption.attemptJobs
  lane
    : reserve ≠ .past →
        Lane reserve.waits adoption.transaction adoption.tailSettled adoption.laneJobs
  /-- An Actor call that is about to adopt finds its own valid proof, or a pending one. -/
  ready
    : reserve ≠ .past → adoption.transaction.validationPromise = none →
        ∀ job ∈ adoption.queue, job.adoptsIn ≠ none → Ready adoption.transaction
  idle : reserve = .past → adoption.Idle
  /-- An attempt that resumes finds at most the reactions to the last proof before it. -/
  near
    : reserve = .resumes →
        adoption.transaction.lane = []
        ∧ (adoption.transaction.validationPromise = none
          ∨ ∃ request, adoption.laneJobs = [.proofSettled request []])
  /-- No request is admitted while an attempt is reserved. -/
  joins
    : adoption.transaction.outcome ≠ none → ∀ job ∈ adoption.queue, job.admitsIn = none
  ordered : Ordered adoption.queue

/-- The transaction is closed, or its continuations are in order. -/
def InOrder (adoption : Adoption) : Prop :=
  adoption.transaction.isClosed = true ∨ ∃ reserve, adoption.Orderly reserve

end Adoption

end SpeculativeAction.EffectTransaction
