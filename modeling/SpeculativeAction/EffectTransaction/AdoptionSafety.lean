import SpeculativeAction.EffectTransaction.AdoptionAttempt

/-! Poison only after an attempted effect, over every run: callers, answers, continuations,
borrowers and the teardown keep an open transaction in order, and a closed one stays closed.
-/

namespace SpeculativeAction.EffectTransaction

open SpeculativeAction.Library

variable {config : Config} {state : State}

-- Answers, requests that waited and the borrowers

/-- While the transaction is open, its borrowers leave the lane and the attempts alone. -/
theorem step?_other {next : State} {action : Action} (taken : step? config state action = some next)
    (other : action.isQueued = false) (isOpen : state.isSealed = false)
    : next.isSealed = true ∨ Grows state next := by
  have closed : state.closeTask = none := by simpa [State.isSealed] using isOpen
  cases action <;> simp only [step?] at taken <;> try cases other
  case takeCommittedInputs =>
    rw [takeCommittedInputs] at taken
    grind [Grows, LaneKept]
  case inputsTaken => grind [inputsTaken, Grows, LaneKept]
  case inputsDisposed => grind [inputsDisposed, Grows, LaneKept]
  case reconstruct => grind [reconstruct, Grows, LaneKept]
  case reconstructed task result =>
    cases result <;> grind [reconstructed, Grows, LaneKept]
  case discarded => grind [discarded, Grows, LaneKept]
  case disposeQuery => grind [disposeQuery, State.setQuery, Grows, LaneKept]
  case queryReleased => grind [queryReleased, State.setQuery, Grows, LaneKept]
  case abort => exact .inl (Option.some.inj taken ▸ rfl)
  case startClose => simp [startClose, closed] at taken
  case drained => simp [drained, closed] at taken
  case queriesDisposed => simp [queriesDisposed, closed] at taken
  case backendDisposed => simp [backendDisposed, closed] at taken

theorem first_of_head {request first : ℕ} {rest : List ℕ}
    (lane : state.lane = (first :: rest).map .validate)
    (head : state.lane.head? = some (.validate request))
    : first = request := by
  simpa [lane] using head

/-- The proof callback of the first request answers once. -/
theorem Lane.answer {waits : ℕ → List ℕ} {tail : Bool} {jobs : List Job} {request : ℕ}
    {query : Option ℕ} {released : Bool} (lane : Lane waits state tail jobs)
    (head : state.lane.head? = some (.validate request))
    (running : state.requests[request]? = some ⟨query, .proving released⟩)
    (unanswered : ∀ returned, .finishProof request returned ∉ jobs)
    (returned : Except String ResourceValidation)
    : jobs = []
      ∧ state.validationPromise ≠ none
      ∧ Lane waits state tail [.finishProof request returned] := by
  cases lane with
  | idle lane => simp [lane] at head
  | queued line lane found =>
      obtain rfl := first_of_head lane head
      cases found.symm.trans running
  | proving line lane found source borrowed pending =>
      obtain rfl := first_of_head lane head
      rcases pending with rfl | ⟨other, rfl⟩
      · exact ⟨rfl, line.pending, .proving line lane found source borrowed (.inr ⟨returned, rfl⟩)⟩
      · exact absurd (List.mem_singleton.mpr rfl) (unanswered other)
  | @proved first rest query validation pending line lane found value recorded jobs =>
      cases rest with
      | nil => simp [lane] at head
      | cons second later =>
          obtain rfl := first_of_head lane head
          obtain ⟨query, waiting⟩ := line.queued second List.mem_cons_self
          cases waiting.symm.trans running

/-- The backend commit answers once. -/
theorem AttemptAt.answer {reserve : Reserve} {jobs : List Job} {attempt : ℕ}
    (at_ : AttemptAt state reserve jobs) (reserved : state.outcome = some attempt)
    (running : state.attempts[attempt]? = some .invoking)
    (unanswered : ∀ result, .finishCommit attempt result ∉ jobs) (result : Except Thrown Unit)
    : reserve = .past ∧ jobs = [] ∧ AttemptAt state .past [.finishCommit attempt result] := by
  cases at_ with
  | unreserved outcome => cases outcome.symm.trans reserved
  | scheduled outcome phase | awaiting outcome phase | resuming outcome phase
  | failing outcome phase =>
      obtain rfl := Option.some.inj (outcome.symm.trans reserved)
      cases phase.symm.trans running
  | invoking outcome phase value answer =>
      obtain rfl := Option.some.inj (outcome.symm.trans reserved)
      rcases answer with rfl | ⟨other, rfl⟩
      · exact ⟨rfl, rfl, .invoking outcome phase value (.inr ⟨result, rfl⟩)⟩
      · exact absurd (List.mem_singleton.mpr rfl) (unanswered other)

namespace Adoption

variable {adoption : Adoption} {reserve : Reserve} {rest : List Job}

/-- The proof callback that the lane waits for answers. -/
theorem Orderly.answerProof (orderly : adoption.Orderly reserve)
    (returned : Except String ResourceValidation)
    : (adoption.answerProof returned).Orderly reserve := by
  rw [Adoption.answerProof]
  split
  next request head =>
    split
    next query released running =>
      split
      · exact orderly
      next silent =>
        have early : reserve ≠ .past := by
          intro past
          simp [(orderly.idle past).lane] at head
        have notResuming : reserve ≠ .resumes := by
          intro resumes
          simp [(orderly.near resumes).1] at head
        have unanswered (other : Except String ResourceValidation)
            : .finishProof request other ∉ adoption.laneJobs := by
          intro member
          refine silent (List.any_eq_true.mpr ⟨_, List.mem_of_mem_filter member, ?_⟩)
          simp
        obtain ⟨noJobs, pending, lane⟩ :=
          (orderly.lane early).answer head running unanswered returned
        refine orderly.move early notResuming (.refl _) rfl pending ?_ ?_ ?_
          (orderly.ordered.push_answer rfl rfl rfl rfl rfl)
        · rw [List.filter_append, show adoption.queue.filter Job.isLane = [] from noJobs]
          exact lane
        · simp [attemptJobs, Job.isAttempt]
        · intro job member follows
          rcases List.mem_append.mp member with before | last
          · exact before
          · obtain rfl := List.mem_singleton.mp last
            exact absurd rfl follows
    · exact orderly
  · exact orderly

theorem Orderly.answerCommit (orderly : adoption.Orderly reserve) (result : Except Thrown Unit)
    : (adoption.answerCommit result).Orderly reserve := by
  rw [Adoption.answerCommit]
  split
  next attempt outcome =>
    split
    next running =>
      have unanswered (other : Except Thrown Unit)
          : .finishCommit attempt other ∉ adoption.attemptJobs := by
        intro member
        refine Bool.eq_false_iff.mp running.2
          (List.any_eq_true.mpr ⟨_, List.mem_of_mem_filter member, ?_⟩)
        simp
      obtain ⟨rfl, noJobs, answered⟩ :=
        orderly.attempt.answer outcome running.1 unanswered result
      refine orderly.past rfl (fun _ => id) rfl rfl ?_ ⟨rfl, rfl⟩
        (orderly.ordered.push_answer rfl rfl rfl rfl rfl)
      rw [List.filter_append, show adoption.queue.filter Job.isAttempt = [] from noJobs]
      exact answered
    · exact orderly
  · exact orderly

/-- A request that waited for an outcome enters the lane. -/
theorem Orderly.resumeValidate {request : ℕ} (orderly : adoption.Orderly reserve)
    (isOpen : adoption.transaction.isSealed = false)
    (queue : adoption.queue = .resumeValidate request :: rest)
    : Adoption.Orderly reserve
        (Adoption.perform config { adoption with queue := rest } (.resumeValidate request)
          (·.admitted request)) := by
  let popped : Adoption := { adoption with queue := rest }
  have dropped : popped.Orderly reserve := orderly.drop queue rfl rfl
  have outcome : adoption.transaction.outcome = none := by
    by_contra reserved
    cases orderly.joins reserved (.resumeValidate request) (by simp [queue])
  obtain ⟨rfl, -⟩ := orderly.attempt.free_of_outcome outcome
  cases taken : step? config adoption.transaction (.resumeValidate request) with
  | none =>
      simp only [perform, taken]
      exact dropped
  | some next =>
      rw [perform_taken popped (.resumeValidate request) taken]
      simp only [step?, EffectTransaction.resumeValidate] at taken
      split at taken
      next query attempt found =>
        split at taken
        · obtain rfl := Option.some.inj taken
          refine dropped.enter outcome (admitValidation_admits isOpen
            (orderly.lane (by simp)).accepts.1 ⟨⟨rfl, rfl, rfl, rfl, id⟩, rfl, rfl⟩
            (fun _ _ => rfl) found fun entry same => ?_)
          cases found.symm.trans same
          rfl
        · cases taken
      · cases taken

/-- The borrowers and the teardown: an open transaction is closed, or stays in order. -/
theorem Orderly.other {action : Action} (orderly : adoption.Orderly reserve)
    (isOpen : adoption.transaction.isSealed = false) (other : action.isQueued = false)
    : InOrder (adoption.perform config action id) := by
  cases taken : step? config adoption.transaction action with
  | none =>
      simp only [perform, taken]
      exact .inr ⟨reserve, orderly⟩
  | some next =>
      rw [perform_taken adoption action taken]
      rcases step?_other taken other isOpen with isSealed | grows
      · exact .inl (by simp [State.isClosed, isSealed])
      · exact .inr ⟨reserve, orderly.grows grows rfl rfl⟩

end Adoption

-- Whole runs

namespace Adoption

variable {adoption : Adoption} {reserve : Reserve} {rest : List Job}

/-- The first continuation of an open transaction runs. -/
theorem Orderly.runJob {job : Job} {gate : Gate} (orderly : adoption.Orderly reserve)
    (isOpen : adoption.transaction.isSealed = false) (agree : Simulates adoption.transaction gate)
    (queue : adoption.queue = job :: rest)
    : InOrder (Adoption.runJob config { adoption with queue := rest } job) := by
  cases job with
  | startProof request => exact .inr ⟨reserve, orderly.startProof queue⟩
  | finishProof request returned => exact .inr ⟨reserve, orderly.finishProof queue⟩
  | settleProof request => exact .inr ⟨reserve, orderly.settleProof queue agree.sole⟩
  | proofSettled request attempts => exact .inr (orderly.proofSettled queue)
  | validateWorldBranch actor =>
      exact .inr ⟨reserve, orderly.continue queue ⟨rfl, rfl⟩ ⟨rfl, rfl⟩ ⟨by simp [Job.adoptsIn]⟩
        ⟨by simp [Job.withdrawsIn]⟩ ⟨by simp [Job.admitsIn]⟩ rfl rfl⟩
  | prepareCandidateOutput actor =>
      exact .inr ⟨reserve, orderly.continue queue ⟨rfl, rfl⟩ ⟨rfl, rfl⟩ ⟨by simp [Job.adoptsIn]⟩
        ⟨by simp [Job.withdrawsIn]⟩ ⟨by simp [Job.admitsIn]⟩ rfl rfl⟩
  | selectActorCandidate actor => exact .inr ⟨reserve, orderly.adopt queue⟩
  | startAttempt attempt => exact .inr (orderly.startAttempt queue)
  | resumeAttempt attempt => exact .inr ⟨.past, (orderly.resumable queue).resumeAttempt⟩
  | finishCommit attempt result => exact orderly.finishCommit queue
  | relayAttempt attempt => exact .inr ⟨reserve, orderly.relayAttempt queue⟩
  | settleAttempt attempt => exact .inr ⟨.free, orderly.settleAttempt queue⟩
  | outcomeSettled request =>
      exact .inr ⟨reserve, orderly.continue queue ⟨rfl, rfl⟩ ⟨rfl, rfl⟩ ⟨by simp [Job.adoptsIn]⟩
        ⟨by simp [Job.withdrawsIn]⟩ ⟨by simp [Job.admitsIn]⟩ rfl rfl⟩
  | resumeValidate request => exact .inr ⟨reserve, orderly.resumeValidate isOpen queue⟩

/-- Every step keeps an open transaction in order, or closes it. -/
theorem Orderly.advance {gate : Gate} (orderly : adoption.Orderly reserve)
    (isOpen : adoption.transaction.isSealed = false) (agree : Simulates adoption.transaction gate)
    (label : AdoptionStep)
    : InOrder (adoption.advance config label) := by
  cases label with
  | prepare =>
      have validated := orderly.validate config isOpen none
      exact .inr ⟨reserve, {
        validated with
        idle := fun past => by
          obtain ⟨lane, promise, tail, jobs⟩ := validated.idle past
          exact ⟨lane, promise, tail, jobs⟩
      }⟩
  | validate query => exact .inr ⟨reserve, orderly.validate config isOpen query⟩
  | answerProof returned => exact .inr ⟨reserve, orderly.answerProof returned⟩
  | answerCommit result => exact .inr ⟨reserve, orderly.answerCommit result⟩
  | run =>
      rw [Adoption.advance, run]
      cases queue : adoption.queue with
      | nil => exact .inr ⟨reserve, orderly⟩
      | cons job rest => exact orderly.runJob isOpen agree queue
  | other action =>
      rw [Adoption.advance]
      cases queued : action.isQueued with
      | true => exact .inr ⟨reserve, orderly⟩
      | false => exact orderly.other isOpen queued

theorem orderly_initial : Orderly .free {} where
  attempt := .unreserved rfl
  lane _ := .idle rfl rfl (.inl rfl)
  ready _ _ _ member := by cases member
  idle := by simp
  near := by simp
  joins _ _ member := by cases member
  ordered := .nil

end Adoption

section Closed

variable {state : State}

theorem admitValidation_closeTask (state : State) (request : ℕ)
    : (admitValidation state request).closeTask = state.closeTask := by
  rw [admitValidation]
  split <;> rfl

/-- Teardown is never taken back. -/
theorem step?_isSealed {state next : State} {action : Action}
    (taken : step? config state action = some next) (isSealed : state.isSealed = true)
    : next.isSealed = true := by
  rw [State.isSealed] at isSealed ⊢
  cases action <;> simp only [step?] at taken
  case validate => grind [validate, admitValidation_closeTask, State.setRequest]
  case resumeValidate => grind [resumeValidate, admitValidation_closeTask]
  case startProof => grind [startProof, State.setRequest]
  case finishProof request returned =>
    rw [finishProof] at taken
    split at taken
    next query _ _ => obtain rfl := Option.some.inj taken; cases query <;> exact isSealed
    · cases taken
  case returnValidation => grind [returnValidation, State.setRequest]
  case commit => grind [commit]
  case startAttempt => grind [startAttempt, State.setAttempt]
  case resumeAttempt => grind [resumeAttempt, rejectEffect, State.setAttempt]
  case finishCommit => grind [finishCommit, rejectEffect, State.setAttempt]
  case settleAttempt => grind [settleAttempt, State.setAttempt]
  case takeCommittedInputs => grind [takeCommittedInputs]
  case inputsTaken => grind [inputsTaken]
  case inputsDisposed => grind [inputsDisposed]
  case reconstruct => grind [reconstruct]
  case reconstructed task result => cases result <;> grind [reconstructed]
  case discarded => grind [discarded]
  case disposeQuery => grind [disposeQuery, State.setQuery]
  case queryReleased => grind [queryReleased, State.setQuery]
  case abort => grind [abort]
  case startClose => grind [startClose]
  case drained => grind [drained]
  case queriesDisposed => grind [queriesDisposed]
  case backendDisposed => grind [backendDisposed]

/-- A closed transaction stays closed. -/
theorem step_isClosed {gate : Gate} (agree : Simulates state gate) (closed : state.isClosed = true)
    (action : Action)
    : (step config state action).isClosed = true := by
  rw [State.isClosed, Bool.or_eq_true] at closed ⊢
  rcases closed with isSealed | terminal
  · left
    rw [step]
    cases taken : step? config state action with
    | none => exact isSealed
    | some next => exact step?_isSealed taken isSealed
  · right
    rw [(step_follows agree action).stable terminal]
    exact terminal

/-- Actions keep to the commit gate and never open a closed transaction. -/
theorem runAll_isClosed (config : Config) {gate : Gate} (agree : Simulates state gate)
    (actions : List Action)
    : ∃ after,
        Simulates (runAll (step config) state actions) after
        ∧ (state.isClosed = true → (runAll (step config) state actions).isClosed = true) := by
  refine runAll_invariant (fun now =>
    ∃ after, Simulates now after ∧ (state.isClosed = true → now.isClosed = true))
    ⟨gate, agree, id⟩ ?_ actions
  rintro now action ⟨before, agree, closed⟩
  have follows : Follows now (step config now action) before := step_follows agree action
  obtain ⟨events, after, -, -, agrees⟩ := follows.accepted
  exact ⟨after, agrees, fun opened => step_isClosed agree (closed opened) action⟩

/-- Nobody can find a closed transaction without an authority. -/
theorem authorised_of_isClosed {gate : Gate} (agree : Simulates state gate)
    (closed : state.isClosed = true)
    : isUnvalidated config state = false := by
  rw [State.isClosed, Bool.or_eq_true] at closed
  rcases closed with isSealed | terminal
  · simp [isUnvalidated, isSealed]
  · have spent := agree.terminal terminal
    cases outcome : state.outcome with
    | none => simp [State.effect, State.currentAttempt, outcome] at spent
    | some attempt => simp [isUnvalidated, outcome]

end Closed

namespace Adoption

variable {adoption : Adoption}

/-- What every run of Actor calls keeps. -/
structure Sound (adoption : Adoption) : Prop where
  blameless : Blameless adoption.transaction
  simulated : ∃ gate, Simulates adoption.transaction gate
  inOrder : adoption.InOrder

/-- An Actor call that adopts is authorised. -/
theorem InOrder.authorised (config : Config) {gate : Gate} (inOrder : adoption.InOrder)
    (agree : Simulates adoption.transaction gate) {actor : ℕ} {rest : List Job}
    (queue : adoption.queue = .selectActorCandidate actor :: rest)
    : isUnvalidated config adoption.transaction = false := by
  rcases inOrder with closed | ⟨reserve, orderly⟩
  · exact authorised_of_isClosed agree closed
  · exact orderly.authorised (queue ▸ List.mem_cons_self) (by simp [Job.adoptsIn])

/-- A step takes actions of the transaction, and an Actor call commits with its authority. -/
theorem Sound.advance (sound : adoption.Sound) (label : AdoptionStep)
    : (adoption.advance config label).Sound := by
  obtain ⟨blameless, ⟨gate, agree⟩, inOrder⟩ := sound
  obtain ⟨actions, reached, kept⟩
      : ∃ actions,
          (adoption.advance config label).transaction
            = runAll (step config) adoption.transaction actions
          ∧ Blameless (adoption.advance config label).transaction := by
    rcases advance_cases config adoption label with
      ⟨actions, noCommit, reached⟩ | ⟨actor, rest, queue, committed⟩
    · refine ⟨actions, reached, reached ▸ ?_⟩
      exact runAll_invariant_of_allowed Blameless (· ≠ Action.commit) blameless
        (fun state _ other before => before.extend (step_extends config state other)) actions
        noCommit
    · have authorised := inOrder.authorised config agree queue
      exact ⟨[.commit], committed, committed ▸ blameless.commit authorised⟩
  obtain ⟨after, agrees, closes⟩ := runAll_isClosed config agree actions
  rw [← reached] at agrees closes
  refine ⟨kept, ⟨after, agrees⟩, ?_⟩
  cases closed : adoption.transaction.isClosed with
  | true => exact .inl (closes closed)
  | false =>
      rcases inOrder with isClosed | ⟨reserve, orderly⟩
      · exact absurd isClosed (by simp [closed])
      · exact orderly.advance (Bool.or_eq_false_iff.mp closed).1 agree label

/-- Poison only after an attempted effect: after any calls, answers and continuations, an Actor call
whose selection ends by rethrowing made a commit that called the backend.
-/
theorem afterSteps_poisonSound (config : Config) (steps : List AdoptionStep)
    : (afterSteps config steps).PoisonSound := by
  have sound : (afterSteps config steps).Sound :=
    runAll_invariant Sound
      ⟨⟨by simp [CallsBackend], by simp⟩, ⟨{}, simulates_initial⟩, .inr ⟨.free, orderly_initial⟩⟩
      (fun _ label sound => sound.advance label) steps
  exact poisonSound_of_blameless sound.blameless

/-- A second proof comes back stale while the first Actor call is about to adopt: its commit still
awaits that proof, fails before the effect and is recoverable.
-/
example
    : let config : Config := ⟨"t1", true, false, true, false, false, false⟩
      let stale := ResourceValidation.stale { stage := .freshness, code := "stale" }
      let proofs : List AdoptionStep :=
        [.prepare, .prepare, .run, .answerProof (.ok .valid), .run, .run, .run, .run,
          .answerProof (.ok stale)]
      let adoption := afterSteps config (proofs ++ List.replicate 10 .run)
      adoption.transaction.commits = [.joined 0]
        ∧ adoption.actors.map adoption.isPoisoned = [false, false]
        ∧ adoption.transaction.outcome = none := by
  decide

/-- A backend commit that fails without a classification poisons the transaction. -/
example
    : let config : Config := ⟨"t1", true, false, true, false, false, false⟩
      let adoption := afterSteps config
        ([.prepare, .run, .answerProof (.ok .valid)] ++ List.replicate 8 .run
          ++ [.answerCommit (.error (.plain "disk")), .run, .run, .run])
      adoption.actors.map adoption.isPoisoned = [true]
        ∧ adoption.actors.map adoption.startedEffect = [true] := by
  decide

end Adoption

end SpeculativeAction.EffectTransaction
