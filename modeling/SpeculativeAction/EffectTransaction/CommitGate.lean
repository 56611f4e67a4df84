import SpeculativeAction.EffectTransaction.Model

/-! What a transaction promises its backend, stated on the calls the backend sees. A small
acceptor grants one effect at a time, on the latest source validation, until one effect
succeeds or cannot be undone or the branch is disposed.
-/

namespace SpeculativeAction.EffectTransaction

open SpeculativeAction.Library

/-- The backend proved that its failed commit left no effect behind. -/
def endsRecoverably : Except Thrown Unit → Bool
  | .ok _ => false
  | .error error => (effectCommitFailure error .poisoned).disposition == .recoverable

namespace BackendCall

def isCommitStarted : BackendCall → Bool
  | commitStarted .. => true
  | _ => false

def isCommitEnded : BackendCall → Bool
  | commitEnded .. => true
  | _ => false

def isDisposeStarted : BackendCall → Bool
  | disposeStarted => true
  | _ => false

/-- The source validation a call reports; a query proof reports none. -/
def sourceValidation? : BackendCall → Option ResourceValidation
  | sourceValidated validation => some validation
  | _ => none

end BackendCall

/-- The most recently completed source validation. -/
def lastSourceValidation (calls : List BackendCall) : Option ResourceValidation :=
  (calls.filterMap (·.sourceValidation?)).getLast?

/-- Every backend commit that was started has ended. -/
def EffectIdle (calls : List BackendCall) : Prop :=
  calls.countP (·.isCommitStarted) = calls.countP (·.isCommitEnded)

/-- Commit safety of a sequence of backend calls. -/
structure CommitSafety (calls : List BackendCall) : Prop where
  /-- A commit starts from `validated`, and the latest source validation is valid. -/
  authorised
    : ∀ before attempt state after,
        calls = before ++ .commitStarted attempt state :: after
        → lastSourceValidation before = some .valid ∧ state = .validated
  /-- No commit starts while another one runs. -/
  exclusive
    : ∀ before attempt state after,
        calls = before ++ .commitStarted attempt state :: after → EffectIdle before
  /-- No commit starts after one that succeeded or failed non-recoverably. -/
  notRepeated
    : ∀ before attempt state after ended result,
        calls = before ++ .commitStarted attempt state :: after
        → .commitEnded ended result ∈ before
        → endsRecoverably result = true
  disposedOnce : calls.countP (·.isDisposeStarted) ≤ 1
  /-- The backend is not disposed while a commit runs. -/
  disposedIdle
    : ∀ before after, calls = before ++ .disposeStarted :: after → EffectIdle before
  /-- A disposed backend is asked for no commit. -/
  notRevived
    : ∀ before attempt state after,
        calls = before ++ .commitStarted attempt state :: after → .disposeStarted ∉ before

inductive GateEffect where
  | idle | running
  /-- An effect succeeded or could not be undone. -/
  | spent
deriving DecidableEq

/-- What the acceptor remembers of the calls it has taken. -/
structure Gate where
  latest : Option ResourceValidation := none
  effect : GateEffect := .idle
  disposed : Bool := false
deriving DecidableEq

namespace Gate

variable {calls : List BackendCall} {gate : Gate}

/-- Take one call, if it is allowed now. -/
def accept (gate : Gate) : BackendCall → Option Gate
  | .commitStarted _ state =>
      if gate.effect = .idle ∧ gate.latest = some .valid ∧ state = .validated
          ∧ gate.disposed = false then
        some { gate with effect := .running }
      else
        none
  | .commitEnded _ result =>
      if gate.effect = .running then
        some { gate with effect := if endsRecoverably result then .idle else .spent }
      else
        none
  | .sourceValidated validation => some { gate with latest := some validation }
  | .queryValidated _ => some gate
  | .disposeStarted =>
      if gate.disposed = false ∧ gate.effect ≠ .running then
        some { gate with disposed := true }
      else
        none
  | .disposeEnded => if gate.disposed then some gate else none

/-- What the memory of the acceptor says about the calls taken so far. -/
structure Remembers (calls : List BackendCall) (gate : Gate) : Prop where
  latest : gate.latest = lastSourceValidation calls
  started
    : calls.countP (·.isCommitStarted)
      = calls.countP (·.isCommitEnded) + (if gate.effect = .running then 1 else 0)
  recoverable
    : gate.effect ≠ .spent
      → ∀ attempt result,
          .commitEnded attempt result ∈ calls → endsRecoverably result = true
  disposed
    : calls.countP (·.isDisposeStarted) = if gate.disposed then 1 else 0

/-- Before any call there is nothing to remember. -/
theorem remembers_nil : Remembers [] {} := by
  refine ⟨rfl, rfl, ?_, rfl⟩
  intro _ attempt result ended
  cases ended

/-- Taking a call updates the memory to match; one case per call. -/
theorem Remembers.accept {next : Gate} {call : BackendCall} (memory : Remembers calls gate)
    (taken : gate.accept call = some next)
    : Remembers (calls ++ [call]) next := by
  obtain ⟨latest, started, recoverable, disposed⟩ := memory
  cases call with
  | commitStarted attempt state =>
      simp only [Gate.accept, Option.ite_none_right_eq_some, Option.some.injEq] at taken
      obtain ⟨⟨idle, -, -, -⟩, rfl⟩ := taken
      refine ⟨?_, ?_, ?_, ?_⟩
      · simpa [lastSourceValidation, BackendCall.sourceValidation?] using latest
      · simpa [idle, BackendCall.isCommitStarted, BackendCall.isCommitEnded] using started
      · intro _ ended result member
        apply recoverable (by simp [idle]) ended result
        simpa using member
      · simpa [BackendCall.isDisposeStarted] using disposed
  | commitEnded attempt result =>
      simp only [Gate.accept, Option.ite_none_right_eq_some, Option.some.injEq] at taken
      obtain ⟨running, rfl⟩ := taken
      refine ⟨?_, ?_, ?_, ?_⟩
      · simpa [lastSourceValidation, BackendCall.sourceValidation?] using latest
      · rcases endsRecoverably result <;>
          simpa [running, BackendCall.isCommitStarted, BackendCall.isCommitEnded]
            using started
      · intro unspent ended other member
        rcases List.mem_append.mp member with earlier | last
        · exact recoverable (by simp [running]) ended other earlier
        · obtain ⟨rfl, rfl⟩ : ended = attempt ∧ other = result := by simpa using last
          by_contra unproved
          exact unspent (by simp [unproved])
      · simpa [BackendCall.isDisposeStarted] using disposed
  | sourceValidated validation =>
      obtain rfl : { gate with latest := some validation } = next := by
        simpa [Gate.accept] using taken
      refine ⟨by simp [lastSourceValidation, BackendCall.sourceValidation?], ?_, ?_, ?_⟩
      · simpa [BackendCall.isCommitStarted, BackendCall.isCommitEnded] using started
      · simpa using recoverable
      · simpa [BackendCall.isDisposeStarted] using disposed
  | queryValidated validation =>
      obtain rfl : gate = next := by simpa [Gate.accept] using taken
      refine ⟨?_, ?_, ?_, ?_⟩
      · simpa [lastSourceValidation, BackendCall.sourceValidation?] using latest
      · simpa [BackendCall.isCommitStarted, BackendCall.isCommitEnded] using started
      · simpa using recoverable
      · simpa [BackendCall.isDisposeStarted] using disposed
  | disposeStarted =>
      simp only [Gate.accept, Option.ite_none_right_eq_some, Option.some.injEq] at taken
      obtain ⟨⟨undisposed, -⟩, rfl⟩ := taken
      refine ⟨?_, ?_, ?_, ?_⟩
      · simpa [lastSourceValidation, BackendCall.sourceValidation?] using latest
      · simpa [BackendCall.isCommitStarted, BackendCall.isCommitEnded] using started
      · simpa using recoverable
      · simpa [undisposed, BackendCall.isDisposeStarted] using disposed
  | disposeEnded =>
      simp only [Gate.accept, Option.ite_none_right_eq_some, Option.some.injEq] at taken
      obtain ⟨-, rfl⟩ := taken
      refine ⟨?_, ?_, ?_, ?_⟩
      · simpa [lastSourceValidation, BackendCall.sourceValidation?] using latest
      · simpa [BackendCall.isCommitStarted, BackendCall.isCommitEnded] using started
      · simpa using recoverable
      · simpa [BackendCall.isDisposeStarted] using disposed

/-- The memory of the acceptor is right after every accepted sequence. -/
theorem remembers (accepted : runFrom accept {} calls = some gate)
    : Remembers calls gate :=
  runFrom_trace_invariant Remembers remembers_nil
    (fun _ _ _ _ memory taken => memory.accept taken) accepted

/-- Cut an accepted sequence at a call: the calls before it are remembered and the call
itself was taken.
-/
theorem accepted_at {before after : List BackendCall} {call : BackendCall}
    (accepted : runFrom accept {} calls = some gate) (cut : calls = before ++ call :: after)
    : ∃ earlier next, Remembers before earlier ∧ earlier.accept call = some next := by
  rw [cut] at accepted
  obtain ⟨earlier, first, rest⟩ := runFrom_append.mp accepted
  obtain ⟨next, taken, -⟩ := runFrom_cons.mp rest
  exact ⟨earlier, next, remembers first, taken⟩

/-- A remembered idle gate means that every started commit has ended. -/
theorem Remembers.effectIdle (memory : Remembers calls gate) (notRunning : gate.effect ≠ .running)
    : EffectIdle calls := by
  simpa [EffectIdle, notRunning] using memory.started

/-- What the gate knew when it let a commit start. -/
theorem commitStarted_taken {before after : List BackendCall} {attempt : ℕ}
    {state : EffectTransactionState} (accepted : runFrom accept {} calls = some gate)
    (cut : calls = before ++ .commitStarted attempt state :: after)
    : ∃ earlier,
        Remembers before earlier
        ∧ earlier.effect = .idle ∧ earlier.latest = some .valid ∧ state = .validated
        ∧ earlier.disposed = false := by
  obtain ⟨earlier, next, memory, taken⟩ := accepted_at accepted cut
  simp only [accept, Option.ite_none_right_eq_some] at taken
  exact ⟨earlier, memory, taken.1⟩

/-- Accepted calls are safe. -/
theorem commitSafety (accepted : runFrom accept {} calls = some gate)
    : CommitSafety calls where
  authorised before attempt state after cut := by
    obtain ⟨earlier, memory, -, valid, validated, -⟩ := commitStarted_taken accepted cut
    exact ⟨memory.latest ▸ valid, validated⟩
  exclusive before attempt state after cut := by
    obtain ⟨earlier, memory, idle, -⟩ := commitStarted_taken accepted cut
    exact memory.effectIdle (by simp [idle])
  notRepeated before attempt state after ended result cut member := by
    obtain ⟨earlier, memory, idle, -⟩ := commitStarted_taken accepted cut
    exact memory.recoverable (by simp [idle]) ended result member
  disposedOnce := by
    rw [(remembers accepted).disposed]
    split <;> omega
  disposedIdle before after cut := by
    obtain ⟨earlier, next, memory, taken⟩ := accepted_at accepted cut
    simp only [accept, Option.ite_none_right_eq_some] at taken
    exact memory.effectIdle taken.1.2
  notRevived before attempt state after cut disposal := by
    obtain ⟨earlier, memory, -, -, -, undisposed⟩ := commitStarted_taken accepted cut
    have none := memory.disposed
    rw [undisposed] at none
    exact absurd (List.countP_eq_zero.mp none _ disposal) (by simp [BackendCall.isDisposeStarted])

end Gate

end SpeculativeAction.EffectTransaction
