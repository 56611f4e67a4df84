import SpeculativeAction.EventQueue.Delivery

/-! Flushes of the event queue. A promise is kept from the first flush that finds something
pending to the end of the drain, so every flush that awaits an open promise awaits that one; when
it resolves, everything accepted before it is finished.
-/

namespace SpeculativeAction.EventQueue

open SpeculativeAction.Library

variable {Event : Type*} {state next : State Event}

-- The shared promise

section Promises

/-- A flush has nothing to wait for, or awaits the promise of the running drain. -/
structure Awaited (state : State Event) : Prop where
  made : ∀ promise ∈ state.queue.resolved, promise < state.queue.promised
  idle : ∀ promise ∈ state.queue.idle,
    promise < state.queue.promised ∧ promise ∉ state.queue.resolved
  accepted : ∀ flush ∈ state.flushes, flush.accepted ≤ state.accepted.length
  flushes : ∀ flush ∈ state.flushes, flush.accepted ≤ state.finished.length
    ∨ ∃ promise ∈ state.queue.idle, flush.awaits = some promise
  flushed : ∀ call ∈ state.flushed, ∃ flush, state.flushes[call]? = some flush
    ∧ flush.accepted ≤ state.finished.length

theorem awaited_start (capacity : ℕ) (positive : 0 < capacity)
    : Awaited (State.start capacity positive : State Event) where
  made _ member := absurd member List.not_mem_nil
  idle _ open_ := by cases open_
  accepted _ member := absurd member List.not_mem_nil
  flushes _ member := absurd member List.not_mem_nil
  flushed _ member := absurd member List.not_mem_nil

/-- What is accepted later does not matter to a flush. -/
theorem Awaited.of_same (awaited : Awaited state)
    (idle : next.queue.idle = state.queue.idle)
    (promised : next.queue.promised = state.queue.promised)
    (resolved : next.queue.resolved = state.queue.resolved)
    (accepted : state.accepted <+: next.accepted) (finished : next.finished = state.finished)
    (flushes : next.flushes = state.flushes) (flushed : next.flushed = state.flushed)
    : Awaited next where
  made := by
    rw [resolved, promised]
    exact awaited.made
  idle := by
    rw [idle, promised, resolved]
    exact awaited.idle
  accepted := by
    rw [flushes]
    exact fun flush member => (awaited.accepted flush member).trans accepted.length_le
  flushes := by
    rw [flushes, finished, idle]
    exact awaited.flushes
  flushed := by
    rw [flushed, flushes, finished]
    exact awaited.flushed

theorem Awaited.enqueue (awaited : Awaited state) (event : Event)
    : Awaited (state.enqueue event) := by
  cases answer : (state.queue.enqueue event).accepted with
  | false => exact (enqueue_of_refused answer).symm ▸ awaited
  | true =>
      rw [State.enqueue, enqueue_of_accepted answer]
      by_cases none_ : state.queue.pending = []
      · rw [if_pos none_]
        exact awaited.of_same rfl rfl rfl (List.prefix_append _ _) rfl rfl rfl
      · rw [if_neg none_]
        exact awaited.of_same rfl rfl rfl (List.prefix_append _ _) rfl rfl rfl

/-- A call of `flush` with nothing pending, or with a promise to await. -/
theorem flush_awaits (queue : BoundedEventQueue Event)
    : (queue.pending = [] ∧ queue.flush = (queue, none))
      ∨ (∃ promise, queue.idle = some promise ∧ queue.flush = (queue, some promise))
      ∨ queue.idle = none
        ∧ queue.flush = ({ queue with
            idle := some queue.promised
            promised := queue.promised + 1 }, some queue.promised) := by
  unfold BoundedEventQueue.flush
  by_cases none_ : queue.pending.length = 0
  · rw [if_pos none_]
    exact .inl ⟨List.length_eq_zero_iff.mp none_, rfl⟩
  · rw [if_neg none_]
    cases idle : queue.idle with
    | some promise => exact .inr (.inl ⟨promise, rfl, rfl⟩)
    | none => exact .inr (.inr ⟨rfl, rfl⟩)

/-- One more flush: it has nothing to wait for, or awaits the promise of the running drain. -/
theorem Awaited.called (awaited : Awaited state) {flush : Flush}
    (accepted : flush.accepted ≤ state.accepted.length)
    (waits : flush.accepted ≤ state.finished.length
      ∨ ∃ promise ∈ state.queue.idle, flush.awaits = some promise)
    : Awaited { state with flushes := state.flushes ++ [flush] } where
  made := awaited.made
  idle := awaited.idle
  accepted := List.forall_mem_append.mpr
    ⟨awaited.accepted, List.forall_mem_singleton.mpr accepted⟩
  flushes := List.forall_mem_append.mpr ⟨awaited.flushes, List.forall_mem_singleton.mpr waits⟩
  flushed call member := by
    obtain ⟨earlier, found, finished⟩ := awaited.flushed call member
    refine ⟨earlier, ?_, finished⟩
    exact (List.getElem?_append_left (List.getElem?_eq_some_iff.mp found).1).trans found

theorem Awaited.flush (awaited : Awaited state) (orderly : Orderly state)
    : Awaited state.flush := by
  have lengths := orderly.length
  rw [State.flush]
  rcases flush_awaits state.queue with ⟨none_, same⟩ | ⟨promise, idle, same⟩ | ⟨idle, same⟩
  · rw [none_, List.length_nil, Nat.add_zero] at lengths
    rw [same]
    exact awaited.called le_rfl (.inl lengths.le)
  · rw [same]
    exact awaited.called le_rfl (.inr ⟨promise, idle, rfl⟩)
  · rw [same]
    -- A new promise: no flush awaited one before.
    have earlier : Awaited { state with
        queue := { state.queue with
          idle := some state.queue.promised
          promised := state.queue.promised + 1 } } := {
      made := fun promise member => (awaited.made promise member).trans (Nat.lt_succ_self _)
      idle := fun promise open_ => by
        obtain rfl := Option.some.inj open_
        exact ⟨Nat.lt_succ_self _, fun member => absurd (awaited.made _ member) (lt_irrefl _)⟩
      accepted := awaited.accepted
      flushes := fun flush member => .inl <| by
        rcases awaited.flushes flush member with finished | ⟨promise, open_, _⟩
        · exact finished
        · rw [idle] at open_
          cases open_
      flushed := awaited.flushed }
    exact earlier.called le_rfl (.inr ⟨_, rfl, rfl⟩)

theorem Awaited.close (awaited : Awaited state) (orderly : Orderly state) (drain : Bool)
    : Awaited (state.close drain) := by
  have closed : Awaited { state with queue := { state.queue with closed := true } } :=
    awaited.of_same rfl rfl rfl List.prefix_rfl rfl rfl rfl
  have orderlyClosed : Orderly { state with queue := { state.queue with closed := true } } :=
    ⟨orderly.made, orderly.accepted, orderly.started, orderly.drains, orderly.bounded⟩
  rw [State.close]
  cases drain with
  | true => exact closed.flush orderlyClosed
  | false => exact closed

/-- The end of the last pending delivery resolves the promise; everything is finished then. -/
theorem Awaited.settles (awaited : Awaited state) (orderly : Orderly state) {index : ℕ}
    {outcome : Outcome} (step : state.settles index outcome = some next)
    : Awaited next := by
  obtain ⟨first, rest, settled⟩ := orderly.settled step
  have lengths := orderly.length
  rw [settled.pending, List.length_cons] at lengths
  rw [settled.next]
  have more : state.finished.length ≤ (state.finished ++ [(first, outcome)]).length :=
    (List.prefix_append _ _).length_le
  have flushed : ∀ call ∈ state.flushed, ∃ flush, state.flushes[call]? = some flush
      ∧ flush.accepted ≤ (state.finished ++ [(first, outcome)]).length := by
    intro call member
    obtain ⟨flush, found, finished⟩ := awaited.flushed call member
    exact ⟨flush, found, finished.trans more⟩
  by_cases last : rest = []
  · rw [last, if_pos rfl, if_pos rfl]
    have all : state.accepted.length = (state.finished ++ [(first, outcome)]).length := by
      rw [lengths, last, List.length_append]
      rfl
    exact {
      made := List.forall_mem_append.mpr ⟨awaited.made, fun promise member =>
        (awaited.idle promise (Option.mem_toList.mp member)).1⟩
      idle := fun promise open_ => by cases open_
      accepted := awaited.accepted
      flushes := fun flush member => .inl ((awaited.accepted flush member).trans all.le)
      flushed := flushed }
  · rw [if_neg last, if_neg last, List.append_nil]
    exact {
      made := awaited.made
      idle := awaited.idle
      accepted := awaited.accepted
      flushes := fun flush member => (awaited.flushes flush member).imp_left (·.trans more)
      flushed := flushed }

/-- A flush that resolves awaited nothing, or a promise that is not the running drain's. -/
theorem Awaited.flushResolves (awaited : Awaited state) {call : ℕ}
    (step : state.flushResolves call = some next)
    : Awaited next := by
  rw [State.flushResolves] at step
  split at step
  next => cases step
  next flush found =>
    by_cases resolved : ∀ promise ∈ flush.awaits, promise ∈ state.queue.resolved
    · rw [if_pos resolved] at step
      rw [← Option.some.inj step]
      refine ⟨awaited.made, awaited.idle, awaited.accepted, awaited.flushes,
        List.forall_mem_append.mpr ⟨awaited.flushed, List.forall_mem_singleton.mpr ?_⟩⟩
      refine ⟨flush, found, ?_⟩
      rcases awaited.flushes flush (List.mem_of_getElem? found) with finished | ⟨promise, open_, awaits⟩
      · exact finished
      · exact absurd (resolved promise awaits) (awaited.idle promise open_).2
    · rw [if_neg resolved] at step
      cases step

theorem Awaited.step (awaited : Awaited state) (orderly : Orderly state) {action : Action Event}
    (taken : state.step action = some next)
    : Awaited next := by
  cases action with
  | enqueue event => exact Option.some.inj taken ▸ awaited.enqueue event
  | flush => exact Option.some.inj taken ▸ awaited.flush orderly
  | close drain => exact Option.some.inj taken ▸ awaited.close orderly drain
  | returns index =>
      change state.returns index = some next at taken
      rw [State.returns] at taken
      split at taken
      next => cases taken
      next =>
        split at taken
        next =>
          rw [← Option.some.inj taken]
          exact awaited.of_same rfl rfl rfl List.prefix_rfl rfl rfl rfl
        next => cases taken
  | settles index outcome => exact awaited.settles orderly taken
  | flushResolves call => exact awaited.flushResolves taken

end Promises

end SpeculativeAction.EventQueue
