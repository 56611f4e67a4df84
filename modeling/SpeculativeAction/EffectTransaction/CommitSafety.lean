import SpeculativeAction.EffectTransaction.CommitGate

/-! Every run of a sealed transaction keeps to the commit gate: the transaction simulates
the acceptor of its backend calls, whatever the order of calls, callbacks and awaits.
-/

namespace SpeculativeAction.EffectTransaction

open SpeculativeAction.Library

variable {config : Config}

namespace AttemptPhase

/-- How far the effect of an attempt is, as the backend sees it. -/
def effect : AttemptPhase → GateEffect
  | scheduled | awaiting _ => .idle
  | invoking => .running
  | applied result => if endsRecoverably result then .idle else .spent
  | settled (.ok _) => .spent
  | settled (.error failure) => if failure.disposition = .recoverable then .idle else .spent

end AttemptPhase

namespace ClosePhase

/-- Teardown has seen every borrower drain. -/
def isRetired : ClosePhase → Bool
  | queued | draining => false
  | disposingQueries | disposing | finished => true

/-- Teardown has called the backend's dispose. -/
def hasDisposed : ClosePhase → Bool
  | queued | draining | disposingQueries => false
  | disposing | finished => true

end ClosePhase

namespace State

/-- The phase of the attempt the commit outcome belongs to. -/
def currentAttempt (state : State) : Option AttemptPhase :=
  state.outcome.bind fun attempt => state.attempts[attempt]?

/-- The effect of the current attempt; without one the backend is idle. -/
def effect (state : State) : GateEffect :=
  state.currentAttempt.elim .idle (·.effect)

def isRetired (state : State) : Bool := state.closeTask.any (·.isRetired)

def hasDisposed (state : State) : Bool := state.closeTask.any (·.hasDisposed)

end State

/-- The transaction and the acceptor of its calls agree. -/
structure Simulates (state : State) (gate : Gate) : Prop where
  /-- A kept validation is the latest one of the source. -/
  latest : ∀ validation, state.validation = some validation → gate.latest = some validation
  effect : gate.effect = state.effect
  disposed : gate.disposed = state.hasDisposed
  /-- Only the attempt behind the outcome can be unsettled. -/
  sole
    : ∀ (attempt : ℕ) (phase : AttemptPhase),
        state.attempts[attempt]? = some phase
        → phase.isSettled = false
        → state.outcome = some attempt
  /-- A committed or poisoned transaction has spent its effect. -/
  terminal : state.stateValue.isTerminal = true → state.effect = .spent
  /-- Teardown goes past draining only when every attempt has settled. -/
  retired
    : state.isRetired = true
      → ∀ (attempt : ℕ) (phase : AttemptPhase),
          state.attempts[attempt]? = some phase → phase.isSettled = true

/-- The freshly sealed transaction agrees with the fresh gate. -/
theorem simulates_initial : Simulates {} {} where
  latest _ validation := by cases validation
  effect := rfl
  disposed := rfl
  sole _ _ found := by simp at found
  terminal done := by cases done
  retired closed := by cases closed

/-- The backend is disposed only after teardown has retired the transaction. -/
theorem State.isRetired_of_hasDisposed {state : State} (disposed : state.hasDisposed = true)
    : state.isRetired = true := by
  simp only [State.hasDisposed, State.isRetired, Option.any_eq_true] at disposed ⊢
  obtain ⟨phase, closing, past⟩ := disposed
  refine ⟨phase, closing, ?_⟩
  cases phase <;> first | rfl | cases past

/-- A step that leaves the commit, its authority and the terminal states alone. -/
structure Quiet (state next : State) : Prop where
  calls : next.calls = state.calls
  validation : next.validation = state.validation
  outcome : next.outcome = state.outcome
  attempts : next.attempts = state.attempts
  commits : next.commits = state.commits
  stateValue
    : next.stateValue = state.stateValue
      ∨ state.stateValue.isTerminal = false ∧ next.stateValue.isTerminal = false
  retired : next.isRetired = state.isRetired
  disposed : next.hasDisposed = state.hasDisposed

/-- A step agrees with the gate and with the terminal state it starts from. -/
structure Follows (state next : State) (gate : Gate) : Prop where
  /-- The new calls are accepted and lead to a gate that agrees again. -/
  accepted
    : ∃ events after,
        next.calls = state.calls ++ events
        ∧ runFrom Gate.accept gate events = some after
        ∧ Simulates next after
  stable : state.stateValue.isTerminal = true → next.stateValue = state.stateValue

/-- A quiet step needs no call. -/
theorem Quiet.follows {state next : State} {gate : Gate} (quiet : Quiet state next)
    (agree : Simulates state gate)
    : Follows state next gate := by
  obtain ⟨calls, validation, outcome, attempts, -, stateValue, retired, disposed⟩ := quiet
  have effect : next.effect = state.effect := by
    simp only [State.effect, State.currentAttempt, outcome, attempts]
  refine ⟨⟨[], gate, by simp [calls], rfl, ?_⟩, ?_⟩
  · refine ⟨?_, ?_, ?_, ?_, ?_, ?_⟩
    · simpa [validation] using agree.latest
    · simpa [effect] using agree.effect
    · simpa [disposed] using agree.disposed
    · simpa [attempts, outcome] using agree.sole
    · intro done
      rw [effect]
      rcases stateValue with same | ⟨-, open'⟩
      · exact agree.terminal (same ▸ done)
      · simp [done] at open'
    · simpa [retired, attempts] using agree.retired
  · intro done
    rcases stateValue with same | ⟨open', -⟩
    · exact same
    · simp [done] at open'

section QuietSteps

variable {state next : State} {request : ℕ}

/-- Nothing changed. -/
theorem Quiet.refl (state : State) : Quiet state state :=
  ⟨rfl, rfl, rfl, rfl, rfl, .inl rfl, rfl, rfl⟩

theorem admitValidation_quiet (state : State) (request : ℕ)
    : Quiet state (admitValidation state request) := by
  unfold admitValidation
  split <;> exact ⟨rfl, rfl, rfl, rfl, rfl, .inl rfl, rfl, rfl⟩

theorem validate_quiet {query : Option ℕ} (taken : validate state query = some next)
    : Quiet state next := by
  simp only [validate, Option.ite_none_right_eq_some] at taken
  obtain ⟨-, taken⟩ := taken
  have admitted (called : State) (same : Quiet state called) (request : ℕ)
      : Quiet state (admitValidation called request) := by
    have later := admitValidation_quiet called request
    exact ⟨later.calls.trans same.calls, later.validation.trans same.validation,
      later.outcome.trans same.outcome, later.attempts.trans same.attempts,
      later.commits.trans same.commits, by unfold admitValidation; split <;> exact same.stateValue,
      later.retired.trans same.retired, later.disposed.trans same.disposed⟩
  have called : Quiet state
      { state with requests := state.requests ++ [⟨query, .queued⟩] } :=
    ⟨rfl, rfl, rfl, rfl, rfl, .inl rfl, rfl, rfl⟩
  split at taken
  · split at taken
    · obtain rfl := Option.some.inj taken
      exact ⟨rfl, rfl, rfl, rfl, rfl, .inl rfl, rfl, rfl⟩
    · exact Option.some.inj taken ▸ admitted _ called _
  · exact Option.some.inj taken ▸ admitted _ called _

theorem resumeValidate_quiet (taken : resumeValidate state request = some next)
    : Quiet state next := by
  unfold resumeValidate at taken
  split at taken
  · simp only [Option.ite_none_right_eq_some, Option.some.injEq] at taken
    exact taken.2 ▸ admitValidation_quiet state request
  · cases taken

/-- Starting a source proof moves only between states that are not terminal. -/
theorem startProof_quiet (taken : startProof state request = some next)
    : Quiet state next := by
  unfold startProof at taken
  split at taken
  · simp only [Option.ite_none_right_eq_some, Option.some.injEq] at taken
    obtain ⟨-, rfl⟩ := taken
    split
    · rename_i opened
      simp only [Bool.and_eq_true, Bool.or_eq_true, beq_iff_eq] at opened
      refine ⟨rfl, rfl, rfl, rfl, rfl, .inr ⟨?_, rfl⟩, rfl, rfl⟩
      rcases opened.2 with before | before <;> simp [before, EffectTransactionState.isTerminal]
    · exact ⟨rfl, rfl, rfl, rfl, rfl, .inl rfl, rfl, rfl⟩
  · cases taken

theorem returnValidation_quiet (taken : returnValidation state request = some next)
    : Quiet state next := by
  unfold returnValidation at taken
  split at taken
  · obtain rfl := Option.some.inj taken
    exact ⟨rfl, rfl, rfl, rfl, rfl, .inl rfl, rfl, rfl⟩
  · cases taken

theorem takeCommittedInputs_quiet (taken : takeCommittedInputs config state = some next)
    : Quiet state next := by
  simp only [takeCommittedInputs, Option.ite_none_right_eq_some] at taken
  obtain ⟨-, taken⟩ := taken
  split at taken <;> obtain rfl := Option.some.inj taken <;>
    exact ⟨rfl, rfl, rfl, rfl, rfl, .inl rfl, rfl, rfl⟩

theorem inputsTaken_quiet {retained : Bool} (taken : inputsTaken state retained = some next)
    : Quiet state next := by
  simp only [inputsTaken, Option.ite_none_right_eq_some, Option.some.injEq] at taken
  obtain ⟨-, rfl⟩ := taken
  exact ⟨rfl, rfl, rfl, rfl, rfl, .inl rfl, rfl, rfl⟩

theorem inputsDisposed_quiet (taken : inputsDisposed state = some next)
    : Quiet state next := by
  simp only [inputsDisposed, Option.ite_none_right_eq_some, Option.some.injEq] at taken
  obtain ⟨-, rfl⟩ := taken
  exact ⟨rfl, rfl, rfl, rfl, rfl, .inl rfl, rfl, rfl⟩

theorem reconstruct_quiet (taken : reconstruct config state = some next)
    : Quiet state next := by
  simp only [reconstruct, Option.ite_none_right_eq_some] at taken
  obtain ⟨-, taken⟩ := taken
  split at taken <;> obtain rfl := Option.some.inj taken <;>
    exact ⟨rfl, rfl, rfl, rfl, rfl, .inl rfl, rfl, rfl⟩

theorem reconstructed_quiet {task : ℕ} {result : Option Reconstruction}
    (taken : reconstructed config state task result = some next)
    : Quiet state next := by
  simp only [reconstructed, Option.ite_none_right_eq_some] at taken
  obtain ⟨-, taken⟩ := taken
  split at taken
  · obtain rfl := Option.some.inj taken
    exact ⟨rfl, rfl, rfl, rfl, rfl, .inl rfl, rfl, rfl⟩
  · split at taken <;> obtain rfl := Option.some.inj taken <;>
      exact ⟨rfl, rfl, rfl, rfl, rfl, .inl rfl, rfl, rfl⟩

theorem discarded_quiet {task : ℕ} (taken : discarded state task = some next)
    : Quiet state next := by
  unfold discarded at taken
  split at taken
  · simp only [Option.ite_none_right_eq_some, Option.some.injEq] at taken
    obtain ⟨-, rfl⟩ := taken
    exact ⟨rfl, rfl, rfl, rfl, rfl, .inl rfl, rfl, rfl⟩
  · cases taken

theorem disposeQuery_quiet {query : ℕ} (taken : disposeQuery state query = some next)
    : Quiet state next := by
  unfold disposeQuery at taken
  split at taken
  · obtain rfl := Option.some.inj taken
    exact ⟨rfl, rfl, rfl, rfl, rfl, .inl rfl, rfl, rfl⟩
  · cases taken

theorem queryReleased_quiet {query : ℕ} (taken : queryReleased state query = some next)
    : Quiet state next := by
  unfold queryReleased at taken
  split at taken
  · obtain rfl := Option.some.inj taken
    exact ⟨rfl, rfl, rfl, rfl, rfl, .inl rfl, rfl, rfl⟩
  · cases taken

/-- Aborting never enters or leaves a terminal state. -/
theorem abortingValue_terminal (state : State)
    : abortingValue state = state.stateValue
      ∨ state.stateValue.isTerminal = false ∧ (abortingValue state).isTerminal = false := by
  unfold abortingValue
  split
  · rename_i opened
    simp only [Bool.and_eq_true, Bool.not_eq_true'] at opened
    exact .inr ⟨opened.1.2, rfl⟩
  · exact .inl rfl

theorem abort_quiet (state : State) : Quiet state (abort state) := by
  refine ⟨rfl, rfl, rfl, rfl, rfl, abortingValue_terminal state, ?_, ?_⟩
  · rcases closing : state.closeTask with _ | phase <;>
      simp [abort, State.isRetired, closing, ClosePhase.isRetired]
  · rcases closing : state.closeTask with _ | phase <;>
      simp [abort, State.hasDisposed, closing, ClosePhase.hasDisposed]

theorem startClose_quiet (taken : startClose state = some next)
    : Quiet state next := by
  simp only [startClose, Option.ite_none_right_eq_some, Option.some.injEq, Bool.and_eq_true,
    decide_eq_true_eq] at taken
  obtain ⟨⟨queued, -⟩, rfl⟩ := taken
  refine ⟨rfl, rfl, rfl, rfl, rfl, .inl rfl, ?_, ?_⟩
  · simp [State.isRetired, queued, ClosePhase.isRetired]
  · simp [State.hasDisposed, queued, ClosePhase.hasDisposed]

end QuietSteps

section CommitSteps

variable {state : State} {gate : Gate} {attempt : ℕ} {next : State}

/-- What an unsettled attempt says about the transaction it belongs to. -/
structure Current (state : State) (attempt : ℕ) (phase : AttemptPhase) : Prop where
  outcome : state.outcome = some attempt
  effect : state.effect = phase.effect
  open' : state.isRetired = false
  undisposed : state.hasDisposed = false
  nonterminal : phase.effect ≠ .spent → state.stateValue.isTerminal = false

/-- An unsettled attempt is the one behind the outcome, and teardown still waits for it. -/
theorem Simulates.current {phase : AttemptPhase} (agree : Simulates state gate)
    (found : state.attempts[attempt]? = some phase) (unsettled : phase.isSettled = false)
    : Current state attempt phase := by
  have outcome := agree.sole attempt phase found unsettled
  have effect : state.effect = phase.effect := by
    simp [State.effect, State.currentAttempt, outcome, found]
  have open' : state.isRetired = false := by
    by_contra retired
    simpa [unsettled] using agree.retired (by simpa using retired) attempt phase found
  refine ⟨outcome, effect, open', ?_, ?_⟩
  · by_contra disposed
    have retired := State.isRetired_of_hasDisposed (by simpa using disposed)
    simp [open'] at retired
  · intro unspent
    by_contra terminal
    exact unspent (effect.symm.trans (agree.terminal (by simpa using terminal)))

/-- The current attempt moves to another phase: what remains to be shown is about the
kept validation, the gate's effect and the new state value.
-/
theorem Simulates.replace {after : Gate} {old : AttemptPhase} (phase : AttemptPhase)
    (agree : Simulates state gate) (found : state.attempts[attempt]? = some old)
    (unsettled : old.isSettled = false)
    (attempts : next.attempts = state.attempts.set attempt phase)
    (closeTask : next.closeTask = state.closeTask)
    (outcome
      : next.outcome = some attempt ∧ after.effect = phase.effect
        ∨ next.outcome = none ∧ after.effect = .idle ∧ phase.isSettled = true)
    (latest
      : ∀ validation, next.validation = some validation → after.latest = some validation)
    (disposed : after.disposed = gate.disposed)
    (terminal : next.stateValue.isTerminal = true → after.effect = .spent)
    : Simulates next after := by
  have current := agree.current found unsettled
  have inside : attempt < state.attempts.length := (List.getElem?_eq_some_iff.mp found).1
  have effect : after.effect = next.effect := by
    rcases outcome with ⟨kept, effect⟩ | ⟨cleared, effect, -⟩
    · simp [effect, State.effect, State.currentAttempt, kept, attempts, inside]
    · simp [effect, State.effect, State.currentAttempt, cleared]
  refine ⟨latest, effect, ?_, ?_, ?_, ?_⟩
  · rw [disposed, agree.disposed]
    simp only [State.hasDisposed, closeTask]
  · intro other otherPhase otherFound otherUnsettled
    rw [attempts, List.getElem?_set] at otherFound
    split at otherFound
    · rename_i same
      obtain rfl : phase = otherPhase := by simpa [← same, inside] using otherFound
      rcases outcome with ⟨kept, -⟩ | ⟨-, -, settled⟩
      · rw [kept, same]
      · simp [settled] at otherUnsettled
    · rename_i different
      have sole := agree.sole other otherPhase otherFound otherUnsettled
      exact absurd (Option.some.inj (current.outcome.symm.trans sole)) different
  · intro done
    exact effect ▸ terminal done
  · intro retired
    have open' := current.open'
    simp only [State.isRetired, closeTask] at retired open'
    simp [retired] at open'

/-- A proof never enters or leaves a terminal state. -/
theorem provedValue_terminal (current : EffectTransactionState) (result : ResourceValidation)
    : provedValue current result = current
      ∨ current.isTerminal = false ∧ (provedValue current result).isTerminal = false := by
  unfold provedValue
  split
  · rename_i validating
    refine .inr ⟨by simp [validating, EffectTransactionState.isTerminal], ?_⟩
    split <;> rfl
  · exact .inl rfl

/-- A finished source proof is reported to the gate; a query proof changes nothing. -/
theorem finishProof_follows {request : ℕ} {returned : Except String ResourceValidation}
    (agree : Simulates state gate) (taken : finishProof config state request returned = some next)
    : Follows state next gate := by
  unfold finishProof at taken
  split at taken
  · rename_i query released found
    obtain rfl := Option.some.inj taken
    cases query with
    | none =>
        have kept :=
          provedValue_terminal state.stateValue (proofResult config none released returned)
        refine ⟨⟨[.sourceValidated _], { gate with latest := some _ }, rfl, rfl, ?_⟩, ?_⟩
        · refine ⟨fun _ same => same, agree.effect, agree.disposed, agree.sole, ?_,
            agree.retired⟩
          intro done
          rcases kept with same | ⟨-, open'⟩
          · exact agree.terminal (same ▸ done)
          · cases done.symm.trans open'
        · intro done
          rcases kept with same | ⟨open', -⟩
          · exact same
          · cases done.symm.trans open'
    | some query =>
        refine ⟨⟨[.queryValidated _], gate, rfl, rfl, ?_⟩, fun _ => rfl⟩
        exact ⟨agree.latest, agree.effect, agree.disposed, agree.sole, agree.terminal,
          agree.retired⟩
  · cases taken

/-- A call of `commit` is quiet, or reserves one attempt for an idle open transaction. -/
theorem commit_follows (agree : Simulates state gate)
    : Follows state (commit config state) gate := by
  unfold commit
  split
  · refine ⟨⟨[], gate, by simp, rfl, ?_⟩, fun _ => rfl⟩
    exact ⟨agree.latest, agree.effect, agree.disposed, agree.sole, agree.terminal,
      agree.retired⟩
  · rename_i starts
    unfold commitCall at starts
    split at starts
    · cases starts
    split at starts
    · cases starts
    rename_i outcome
    split at starts
    · cases starts
    rename_i opened
    have idle : state.effect = .idle := by simp [State.effect, State.currentAttempt, outcome]
    have retired : state.isRetired = false := by
      simp only [State.isSealed, Option.isSome_iff_ne_none, ne_eq, not_not] at opened
      simp [State.isRetired, opened]
    refine ⟨⟨[], gate, by simp, rfl, ?_⟩, fun _ => rfl⟩
    refine ⟨agree.latest, ?_, agree.disposed, ?_, ?_, ?_⟩
    · rw [agree.effect, idle]
      simp [State.effect, State.currentAttempt, AttemptPhase.effect]
    · intro attempt phase found unsettled
      rcases Nat.lt_trichotomy attempt state.attempts.length with earlier | rfl | beyond
      · rw [List.getElem?_append_left earlier] at found
        have sole := agree.sole attempt phase found unsettled
        simp [outcome] at sole
      · rfl
      · rw [List.getElem?_eq_none (by simpa using Nat.succ_le_of_lt beyond)] at found
        cases found
    · intro done
      cases idle.symm.trans (agree.terminal done)
    · intro done
      cases retired.symm.trans done

/-- An attempt that starts waiting is still idle. -/
theorem startAttempt_follows (agree : Simulates state gate)
    (taken : startAttempt state attempt = some next)
    : Follows state next gate := by
  unfold startAttempt at taken
  split at taken
  · rename_i found
    obtain rfl := Option.some.inj taken
    have current := agree.current found rfl
    refine ⟨⟨[], gate, by simp [State.setAttempt], rfl, ?_⟩, fun _ => rfl⟩
    refine agree.replace (.awaiting state.validationPromise) found rfl rfl rfl
      (.inl ⟨current.outcome, agree.effect.trans current.effect⟩) agree.latest rfl ?_
    intro done
    exact agree.effect.trans (agree.terminal done)
  · cases taken

/-- The handler of a failed effect: poisoned when the gate is spent, reopened when idle. -/
theorem Simulates.rejectEffect {after : Gate} {phase : AttemptPhase} {error : Thrown}
    (agree : Simulates state gate) (found : state.attempts[attempt]? = some phase)
    (unsettled : phase.isSettled = false)
    (effect
      : after.effect = if endsRecoverably (.error error) then .idle else .spent)
    (disposed : after.disposed = gate.disposed)
    : Simulates (rejectEffect state attempt error) after := by
  have same : (effectCommitFailure error .poisoned
      (some "effect commit failed without proof that its side effects were restored")
      ).disposition = (effectCommitFailure error .poisoned).disposition := by
    cases error <;> rfl
  refine agree.replace _ found unsettled rfl rfl
    (.inl ⟨(agree.current found unsettled).outcome, ?_⟩) ?_ disposed ?_
  · rw [effect]
    simp only [AttemptPhase.effect, endsRecoverably, effectCommitFailure]
    cases error <;> rfl
  · intro validation kept
    cases kept
  · intro done
    rw [effect]
    simp only [EffectTransaction.rejectEffect, same] at done
    split at done
    · rename_i poisoned
      simp [endsRecoverably, poisoned]
    · cases done

/-- A resumed attempt starts its effect on a valid source, or fails before any effect. -/
theorem resumeAttempt_follows (agree : Simulates state gate)
    (taken : resumeAttempt config state attempt = some next)
    : Follows state next gate := by
  unfold resumeAttempt at taken
  split at taken
  · rename_i request found
    simp only [Option.ite_none_right_eq_some] at taken
    obtain ⟨-, taken⟩ := taken
    have current := agree.current found rfl
    have nonterminal := current.nonterminal (by simp [AttemptPhase.effect])
    have idle : gate.effect = .idle := agree.effect.trans current.effect
    have stable (value : EffectTransactionState)
        : state.stateValue.isTerminal = true → value = state.stateValue := by
      intro done
      cases done.symm.trans nonterminal
    split at taken
    · rename_i allowed
      obtain rfl := Option.some.inj taken
      simp only [Bool.and_eq_true, beq_iff_eq] at allowed
      obtain ⟨valid, validated⟩ := allowed
      have latest : gate.latest = some .valid := by
        simp only [State.latestValid, Option.any_eq_true] at valid
        obtain ⟨validation, kept, valid⟩ := valid
        rw [agree.latest validation kept]
        cases validation <;> first | rfl | cases valid
      have undisposed : gate.disposed = false := agree.disposed.trans current.undisposed
      refine ⟨⟨[.commitStarted attempt state.stateValue], { gate with effect := .running },
        rfl, ?_, ?_⟩, stable _⟩
      · simp [runFrom, Gate.accept, idle, latest, validated, undisposed]
      · refine agree.replace .invoking found rfl rfl rfl (.inl ⟨current.outcome, rfl⟩)
          agree.latest rfl ?_
        intro done
        cases done
    · obtain rfl := Option.some.inj taken
      refine ⟨⟨[], gate, by simp [rejectEffect, State.setAttempt], rfl, ?_⟩, stable _⟩
      exact agree.rejectEffect found rfl (by simp [idle, endsRecoverably, effectCommitFailure,
        unauthorisedFailure]) rfl
  · cases taken

/-- The backend commit ends: committed, reopened or poisoned. -/
theorem finishCommit_follows {result : Except Thrown Unit} (agree : Simulates state gate)
    (taken : finishCommit state attempt result = some next)
    : Follows state next gate := by
  unfold finishCommit at taken
  split at taken
  · rename_i found
    have current := agree.current found rfl
    have nonterminal := current.nonterminal (by simp [AttemptPhase.effect])
    have running : gate.effect = .running := agree.effect.trans current.effect
    have stable (value : EffectTransactionState)
        : state.stateValue.isTerminal = true → value = state.stateValue := by
      intro done
      cases done.symm.trans nonterminal
    have accepted
        : runFrom Gate.accept gate [.commitEnded attempt result]
          = some { gate with effect := if endsRecoverably result then .idle else .spent } := by
      simp [runFrom, Gate.accept, running]
    rcases result with error | done
    · obtain rfl := Option.some.inj taken
      refine ⟨⟨_, _, rfl, accepted, ?_⟩, stable _⟩
      have called : Simulates
          { state with calls := state.calls ++ [.commitEnded attempt (.error error)] } gate :=
        ⟨agree.latest, agree.effect, agree.disposed, agree.sole, agree.terminal, agree.retired⟩
      exact called.rejectEffect found rfl rfl rfl
    · obtain rfl := Option.some.inj taken
      refine ⟨⟨_, _, rfl, accepted, ?_⟩, stable _⟩
      exact agree.replace (.applied (.ok ())) found rfl rfl rfl
        (.inl ⟨current.outcome, rfl⟩) agree.latest rfl fun _ => rfl
  · cases taken

/-- Settling an attempt keeps its effect; a recoverable one gives the outcome up. -/
theorem settleAttempt_follows (agree : Simulates state gate)
    (taken : settleAttempt state attempt = some next)
    : Follows state next gate := by
  unfold settleAttempt at taken
  split at taken
  · rename_i found
    obtain rfl := Option.some.inj taken
    have current := agree.current found rfl
    refine ⟨⟨[], gate, by simp [State.setAttempt], rfl, ?_⟩, fun _ => rfl⟩
    refine agree.replace (.settled (.ok ())) found rfl rfl rfl
      (.inl ⟨current.outcome, agree.effect.trans current.effect⟩) agree.latest rfl ?_
    intro done
    exact agree.effect.trans (agree.terminal done)
  · rename_i error found
    obtain rfl := Option.some.inj taken
    have current := agree.current found rfl
    have effect : gate.effect = if endsRecoverably (.error error) then .idle else .spent :=
      agree.effect.trans current.effect
    refine ⟨⟨[], gate, by simp [State.setAttempt], rfl, ?_⟩, fun _ => rfl⟩
    refine agree.replace (.settled (.error (effectCommitFailure error .poisoned))) found rfl
      rfl rfl ?_ agree.latest rfl (fun done => agree.effect.trans (agree.terminal done))
    rw [effect]
    rcases disposition : (effectCommitFailure error .poisoned).disposition
    · right
      simp [disposition, endsRecoverably, AttemptPhase.isSettled]
    · left
      simp [disposition, endsRecoverably, AttemptPhase.effect, current.outcome]
  · cases taken

end CommitSteps

section TeardownSteps

/-- Drained borrowers mean that every attempt has settled. -/
theorem drained_follows {state next : State} {gate : Gate} (agree : Simulates state gate)
    (taken : drained state = some next)
    : Follows state next gate := by
  simp only [drained, Option.ite_none_right_eq_some, Option.some.injEq, Bool.and_eq_true,
    decide_eq_true_eq] at taken
  obtain ⟨⟨draining, settled⟩, rfl⟩ := taken
  have undisposed : state.hasDisposed = false := by
    simp [State.hasDisposed, draining, ClosePhase.hasDisposed]
  refine ⟨⟨[], gate, by simp, rfl, ?_⟩, fun _ => rfl⟩
  refine ⟨agree.latest, agree.effect, agree.disposed.trans undisposed, agree.sole,
    agree.terminal, ?_⟩
  intro _ attempt phase found
  simp only [isDrained, Bool.and_eq_true, List.all_eq_true] at settled
  exact settled.1.1.1 phase (List.mem_of_getElem? found)

/-- The backend is disposed once and while no commit runs. -/
theorem queriesDisposed_follows {state next : State} {gate : Gate} (agree : Simulates state gate)
    (taken : queriesDisposed state = some next)
    : Follows state next gate := by
  simp only [queriesDisposed, Option.ite_none_right_eq_some, Option.some.injEq,
    Bool.and_eq_true, decide_eq_true_eq] at taken
  obtain ⟨⟨phase, -⟩, rfl⟩ := taken
  have retired : state.isRetired = true := by
    simp [State.isRetired, phase, ClosePhase.isRetired]
  have undisposed : gate.disposed = false := by
    simp [agree.disposed, State.hasDisposed, phase, ClosePhase.hasDisposed]
  -- an invoking attempt would be unsettled, and teardown has seen every attempt settle
  have notRunning : gate.effect ≠ .running := by
    rw [agree.effect]
    intro running
    rcases current : state.currentAttempt with _ | attempt
    · simp [State.effect, current] at running
    · obtain ⟨index, -, found⟩ := Option.bind_eq_some_iff.mp current
      have settled := agree.retired retired index attempt found
      simp only [State.effect, current, Option.elim_some] at running
      rcases attempt with _ | _ | _ | _ | _ | _ <;>
        simp_all [AttemptPhase.isSettled, AttemptPhase.effect]
      split at running <;> cases running
  refine ⟨⟨[.disposeStarted], { gate with disposed := true }, rfl, ?_, ?_⟩, fun _ => rfl⟩
  · simp [runFrom, Gate.accept, undisposed, notRunning]
  · exact ⟨agree.latest, agree.effect, rfl, agree.sole, agree.terminal,
      fun _ => agree.retired retired⟩

/-- The end of teardown leaves a committed or poisoned transaction as it is. -/
theorem backendDisposed_follows {state next : State} {gate : Gate} (agree : Simulates state gate)
    (taken : backendDisposed state = some next)
    : Follows state next gate := by
  simp only [backendDisposed, Option.ite_none_right_eq_some, Option.some.injEq] at taken
  obtain ⟨phase, rfl⟩ := taken
  have retired : state.isRetired = true := by
    simp [State.isRetired, phase, ClosePhase.isRetired]
  have disposed : gate.disposed = true := by
    simp [agree.disposed, State.hasDisposed, phase, ClosePhase.hasDisposed]
  refine ⟨⟨[.disposeEnded], gate, rfl, by simp [runFrom, Gate.accept, disposed], ?_⟩, ?_⟩
  · refine ⟨agree.latest, agree.effect, disposed, agree.sole, ?_,
      fun _ => agree.retired retired⟩
    intro done
    split at done
    · exact agree.terminal ‹_›
    · cases done
  · intro done
    simp [done]

end TeardownSteps

/-- Every action follows the gate, whether it is enabled or not. -/
theorem step_follows {state : State} {gate : Gate} (agree : Simulates state gate) (action : Action)
    : Follows state (step config state action) gate := by
  unfold step
  rcases taken : step? config state action with _ | next
  · exact (Quiet.refl state).follows agree
  rw [Option.getD_some]
  cases action with
  | validate query => exact (validate_quiet taken).follows agree
  | resumeValidate request => exact (resumeValidate_quiet taken).follows agree
  | startProof request => exact (startProof_quiet taken).follows agree
  | finishProof request returned => exact finishProof_follows agree taken
  | returnValidation request => exact (returnValidation_quiet taken).follows agree
  | commit => exact Option.some.inj taken ▸ commit_follows agree
  | startAttempt attempt => exact startAttempt_follows agree taken
  | resumeAttempt attempt => exact resumeAttempt_follows agree taken
  | finishCommit attempt result => exact finishCommit_follows agree taken
  | settleAttempt attempt => exact settleAttempt_follows agree taken
  | takeCommittedInputs => exact (takeCommittedInputs_quiet taken).follows agree
  | inputsTaken retained => exact (inputsTaken_quiet taken).follows agree
  | inputsDisposed => exact (inputsDisposed_quiet taken).follows agree
  | reconstruct => exact (reconstruct_quiet taken).follows agree
  | reconstructed task result => exact (reconstructed_quiet taken).follows agree
  | discarded task => exact (discarded_quiet taken).follows agree
  | disposeQuery query => exact (disposeQuery_quiet taken).follows agree
  | queryReleased query => exact (queryReleased_quiet taken).follows agree
  | abort => exact Option.some.inj taken ▸ (abort_quiet state).follows agree
  | startClose => exact (startClose_quiet taken).follows agree
  | drained => exact drained_follows agree taken
  | queriesDisposed => exact queriesDisposed_follows agree taken
  | backendDisposed => exact backendDisposed_follows agree taken

/-- The gate accepts the calls of every run. -/
theorem afterActions_simulates (config : Config) (actions : List Action)
    : ∃ gate,
        runFrom Gate.accept {} (afterActions config actions).calls = some gate
        ∧ Simulates (afterActions config actions) gate :=
  runAll_accepted State.calls Simulates rfl simulates_initial
    (fun _ _ action agree => (step_follows agree action).accepted) actions

/-- Actions after a run continue it. -/
theorem afterActions_append (config : Config) (actions later : List Action)
    : afterActions config (actions ++ later)
      = runAll (step config) (afterActions config actions) later := by
  simp [afterActions, runAll]

/-- Once committed or poisoned, a transaction keeps its state under every later action. -/
theorem afterActions_stable (config : Config) (actions later : List Action)
    (terminal : (afterActions config actions).stateValue.isTerminal = true)
    : (afterActions config (actions ++ later)).stateValue
      = (afterActions config actions).stateValue := by
  induction later using List.reverseRecOn with
  | nil => simp
  | append_singleton later action ih =>
      obtain ⟨gate, -, agree⟩ := afterActions_simulates config (actions ++ later)
      rw [← List.append_assoc, afterActions_append, ← ih]
      exact (step_follows agree action).stable (ih ▸ terminal)

/-- Commit safety of a sealed transaction: after any actions in any order, the backend
calls so far are safe, and a committed or poisoned transaction stays as it is.
-/
theorem afterActions_commitSafe (config : Config) (actions : List Action)
    : CommitSafety (afterActions config actions).calls
      ∧ ∀ later,
          (afterActions config actions).stateValue.isTerminal = true
          → (afterActions config (actions ++ later)).stateValue
            = (afterActions config actions).stateValue := by
  obtain ⟨gate, accepted, -⟩ := afterActions_simulates config actions
  exact ⟨Gate.commitSafety accepted, afterActions_stable config actions⟩

/-- A validated exclusive branch commits, and its teardown leaves it committed. -/
example
    : (afterActions ⟨"tx_1", false, false, false, false, false, false⟩
        [.validate none, .startProof 0, .finishProof 0 (.error "unused"), .returnValidation 0,
          .commit, .abort, .startAttempt 0, .resumeAttempt 0, .finishCommit 0 (.ok ()),
          .settleAttempt 0, .startClose, .drained, .queriesDisposed, .backendDisposed]
      ).stateValue = .committed := by
  decide

end SpeculativeAction.EffectTransaction
