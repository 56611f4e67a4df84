import SpeculativeAction.EventQueue.Model

/-! Delivery of the accepted events. In every state that calls and deliveries lead to, at most one
drain is under way; it delivers the first of the pending events, and what is finished comes before
it in the order of acceptance.
-/

namespace SpeculativeAction.EventQueue

open SpeculativeAction.Library

variable {Event : Type*} {state next : State Event}

section Drains

/-- The only drain of a queue, at the first pending entry. -/
def drainAt (phase : Phase) (entry : Entry Event) : Drain Event := ⟨entry.id + 1, entry, phase⟩

/-- The pending entries that a drain has started. -/
def inDelivery (pending : List (Entry Event)) : List (Entry Event) := pending.take 1

/-- The accepted entries are the finished and the pending ones, and the drain is at the first of
the pending ones.
-/
structure Orderly (state : State Event) : Prop where
  made : state.accepted.map Entry.id = List.range state.queue.made
  accepted : state.accepted = state.finished.map Prod.fst ++ state.queue.pending
  started : state.started = state.finished.map Prod.fst ++ inDelivery state.queue.pending
  drains : ∃ phase, state.queue.drains = (inDelivery state.queue.pending).map (drainAt phase)
  bounded : state.queue.pending.length ≤ state.queue.capacityValue

theorem orderly_start (capacity : ℕ) (positive : 0 < capacity)
    : Orderly (State.start capacity positive : State Event) where
  made := rfl
  accepted := rfl
  started := rfl
  drains := ⟨.delivering, rfl⟩
  bounded := Nat.zero_le _

theorem Orderly.length (orderly : Orderly state)
    : state.accepted.length = state.finished.length + state.queue.pending.length := by
  rw [orderly.accepted, List.length_append, List.length_map]

/-- The ids of the accepted entries increase. -/
theorem Orderly.increasing (orderly : Orderly state)
    : (state.accepted.map Entry.id).Pairwise (· < ·) :=
  orderly.made ▸ List.pairwise_lt_range

/-- Every entry behind the first pending one was made after it. -/
theorem Orderly.later (orderly : Orderly state) {first : Entry Event} {rest : List (Entry Event)}
    (pending : state.queue.pending = first :: rest)
    : ∀ entry ∈ rest, first.id < entry.id := by
  have increasing := orderly.increasing
  rw [orderly.accepted, pending, List.map_append, List.map_cons] at increasing
  intro entry member
  exact (List.pairwise_cons.mp (List.pairwise_append.mp increasing).2.1).1 entry.id
    (List.mem_map_of_mem member)

/-- A drain under way delivers the first pending entry, and is the only one. -/
theorem Orderly.running (orderly : Orderly state) {index : ℕ} {running : Drain Event}
    (found : state.queue.drains[index]? = some running)
    : ∃ first rest,
        state.queue.pending = first :: rest ∧ index = 0
          ∧ running = drainAt running.phase first ∧ state.queue.drains = [running] := by
  obtain ⟨phase, drains⟩ := orderly.drains
  cases pending : state.queue.pending with
  | nil =>
      rw [drains, pending] at found
      cases found
  | cons first rest =>
      have single : state.queue.drains = [drainAt phase first] := by
        rw [drains, pending]
        rfl
      rw [single] at found
      cases index with
      | zero =>
          obtain rfl := Option.some.inj found
          exact ⟨first, rest, rfl, rfl, rfl, single⟩
      | succ index => cases found

end Drains

-- The steps of the queue

section Steps

variable {queue : BoundedEventQueue Event} {event : Event}

/-- What a drain does next, where the iterator passed none of the pending entries. -/
theorem drain_eq {visited : ℕ} (ahead : ∀ entry ∈ queue.pending, visited ≤ entry.id)
    : queue.drain visited
      = ({ queue with
          idle := if queue.pending = [] then none else queue.idle
          resolved := queue.resolved ++ (if queue.pending = [] then queue.idle.toList else [])
          drains := (inDelivery queue.pending).map (drainAt .delivering) ++ queue.drains },
        inDelivery queue.pending) := by
  obtain ⟨capacityValue, pending, idle, closed, made, promised, resolved, drains, positive⟩ := queue
  cases pending with
  | nil => rfl
  | cons first rest =>
      have reached : (first :: rest).find? (fun entry => decide (visited ≤ entry.id)) = some first :=
        List.find?_cons_of_pos (decide_eq_true (ahead first List.mem_cons_self))
      rw [BoundedEventQueue.drain]
      dsimp only
      rw [reached, if_neg (List.cons_ne_nil _ _), if_neg (List.cons_ne_nil _ _), List.append_nil]
      rfl

/-- An event is refused by a closed queue and by a full one. -/
theorem enqueue_refused
    : (queue.enqueue event).accepted = false
      ↔ queue.closed = true ∨ queue.capacityValue ≤ queue.pending.length := by
  unfold BoundedEventQueue.enqueue
  by_cases closed : queue.closed = true
  · rw [if_pos closed]
    exact iff_of_true rfl (.inl closed)
  · rw [if_neg closed]
    by_cases full : queue.capacityValue ≤ queue.pending.length
    · rw [if_pos full]
      exact iff_of_true rfl (.inr full)
    · rw [if_neg full]
      refine iff_of_false ?_ (not_or.mpr ⟨closed, full⟩)
      by_cases first : (queue.add event).pending.length = 1
      · rw [if_pos first]
        exact Bool.false_ne_true.symm
      · rw [if_neg first]
        exact Bool.false_ne_true.symm

theorem enqueue_of_refused (refused : (state.queue.enqueue event).accepted = false)
    : state.enqueue event = state := by
  have unchanged : state.queue.enqueue event = ⟨false, state.queue, []⟩ := by
    rcases enqueue_refused.mp refused with closed | full
    · unfold BoundedEventQueue.enqueue
      rw [if_pos closed]
    · unfold BoundedEventQueue.enqueue
      rw [if_pos full, ite_self]
  rw [State.enqueue, unchanged]
  dsimp only
  rw [if_neg Bool.false_ne_true, List.append_nil, List.append_nil]

/-- An accepted event is pending, and delivered at once where it is the only one. -/
theorem enqueue_of_accepted (accepted : (queue.enqueue event).accepted = true)
    : queue.enqueue event
      = if queue.pending = [] then
          ⟨true, { queue.add event with
            drains := drainAt .delivering ⟨queue.made, event⟩ :: queue.drains },
            [⟨queue.made, event⟩]⟩
        else ⟨true, queue.add event, []⟩ := by
  have open_ : ¬ (queue.closed = true ∨ queue.capacityValue ≤ queue.pending.length) := by
    rw [← enqueue_refused, accepted]
    exact Bool.false_ne_true.symm
  obtain ⟨notClosed, notFull⟩ := not_or.mp open_
  unfold BoundedEventQueue.enqueue
  rw [if_neg notClosed, if_neg notFull]
  dsimp only
  have only : (queue.add event).pending.length = 1 ↔ queue.pending = [] := by
    rw [BoundedEventQueue.add, List.length_append, List.length_singleton, Nat.add_eq_right,
      List.length_eq_zero_iff]
  by_cases none_ : queue.pending = []
  · rw [if_pos (only.mpr none_), if_pos none_, drain_eq fun _ _ => Nat.zero_le _]
    have added : (queue.add event).pending = [⟨queue.made, event⟩] := by
      rw [BoundedEventQueue.add, none_]
      rfl
    dsimp only
    rw [added, if_neg (List.cons_ne_nil _ _), if_neg (List.cons_ne_nil _ _), List.append_nil]
    rfl
  · rw [if_neg (mt only.mp none_), if_neg none_]

/-- The end of a delivery deletes its entry, and the drain goes on with the one behind it. -/
theorem settle_eq {first : Entry Event} {rest : List (Entry Event)} {running : Drain Event}
    (pending : queue.pending = first :: rest) (later : ∀ entry ∈ rest, first.id < entry.id)
    (same : running = drainAt running.phase first) (single : queue.drains = [running])
    : queue.settle 0 running
      = ({ queue with
          pending := rest
          idle := if rest = [] then none else queue.idle
          resolved := queue.resolved ++ (if rest = [] then queue.idle.toList else [])
          drains := (inDelivery rest).map (drainAt .delivering) },
        inDelivery rest) := by
  have entry : running.next = first := congrArg Drain.next same
  have visited : running.visited = first.id + 1 := congrArg Drain.visited same
  have kept : queue.pending.filter (fun other => decide (other.id ≠ running.next.id)) = rest := by
    rw [pending, entry, List.filter_cons_of_neg (by simp), List.filter_eq_self]
    intro other member
    exact decide_eq_true (later other member).ne'
  have gone : queue.drains.eraseIdx 0 = [] := by
    rw [single]
    rfl
  rw [BoundedEventQueue.settle, kept, gone, drain_eq fun other member => ?_, List.append_nil]
  rw [visited]
  exact later other member

/-- What a settlement does to a state, in each of the ways a delivery ends. -/
structure Settled (state next : State Event) (outcome : Outcome) (first : Entry Event)
    (rest : List (Entry Event)) : Prop where
  pending : state.queue.pending = first :: rest
  phase : state.queue.drains = [drainAt outcome.phase first]
  next : next = { state with
    queue := { state.queue with
      pending := rest
      idle := if rest = [] then none else state.queue.idle
      resolved := state.queue.resolved ++ (if rest = [] then state.queue.idle.toList else [])
      drains := (inDelivery rest).map (drainAt .delivering) }
    started := state.started ++ inDelivery rest
    finished := state.finished ++ [(first, outcome)] }

theorem Orderly.settled (orderly : Orderly state) {index : ℕ} {outcome : Outcome}
    (step : state.settles index outcome = some next)
    : ∃ first rest, Settled state next outcome first rest := by
  rw [State.settles] at step
  split at step
  next => cases step
  next running found =>
    obtain ⟨first, rest, pending, rfl, same, single⟩ := orderly.running found
    by_cases phase : running.phase = outcome.phase
    · rw [if_pos phase, settle_eq pending (orderly.later pending) same single] at step
      have entry : running.next = first := congrArg Drain.next same
      refine ⟨first, rest, pending, ?_, ?_⟩
      · rw [single, same, phase]
      · rw [← Option.some.inj step, entry]
    · rw [if_neg phase] at step
      cases step

/-- The drain awaits what its delivery returned. -/
theorem returns_eq {entry : Entry Event} (single : state.queue.drains = [drainAt .delivering entry])
    : state.returns 0
      = some { state with
          queue := { state.queue with drains := [drainAt .awaiting entry] } } := by
  have delivering : (drainAt .delivering entry).phase = .delivering := rfl
  rw [State.returns, single, List.getElem?_cons_zero]
  dsimp only
  rw [if_pos delivering]
  rfl

/-- The drain's delivery can end in every way its phase allows. -/
theorem settles_isSome {phase : Phase} {entry : Entry Event}
    (single : state.queue.drains = [drainAt phase entry]) (outcome : Outcome)
    (same : outcome.phase = phase)
    : (state.settles 0 outcome).isSome = true := by
  have phases : (drainAt phase entry).phase = outcome.phase := same.symm
  rw [State.settles, single, List.getElem?_cons_zero]
  dsimp only
  rw [if_pos phases]
  rfl

end Steps

-- Every run is orderly

section Runs

/-- An accepted event comes behind all others. -/
theorem Orderly.enqueue (orderly : Orderly state) (event : Event)
    : Orderly (state.enqueue event) := by
  cases answer : (state.queue.enqueue event).accepted with
  | false => exact (enqueue_of_refused answer).symm ▸ orderly
  | true =>
      have room : state.queue.pending.length < state.queue.capacityValue := by
        have open_ := mt enqueue_refused.mpr (ne_of_eq_of_ne answer Bool.false_ne_true.symm)
        exact Nat.lt_of_not_le (not_or.mp open_).2
      have made : (state.accepted ++ [(⟨state.queue.made, event⟩ : Entry Event)]).map Entry.id
          = List.range (state.queue.made + 1) := by
        rw [List.map_append, orderly.made, List.range_succ]
        rfl
      rw [State.enqueue, enqueue_of_accepted answer]
      by_cases none_ : state.queue.pending = []
      · rw [if_pos none_]
        obtain ⟨phase, drains⟩ := orderly.drains
        have accepted := orderly.accepted
        have started := orderly.started
        rw [none_] at accepted started drains
        exact {
          made := made
          accepted := by
            change state.accepted ++ [_] = state.finished.map Prod.fst ++ (state.queue.pending ++ [_])
            rw [accepted, none_, List.append_nil, List.nil_append]
          started := by
            change state.started ++ [_]
              = state.finished.map Prod.fst ++ inDelivery (state.queue.pending ++ [_])
            rw [started, none_, inDelivery, List.take_nil, List.append_nil]
            rfl
          drains := ⟨.delivering, by
            change drainAt .delivering _ :: state.queue.drains
              = (inDelivery (state.queue.pending ++ [_])).map (drainAt .delivering)
            rw [drains, none_]
            rfl⟩
          bounded := by
            change (state.queue.pending ++ [_]).length ≤ state.queue.capacityValue
            rw [List.length_append, List.length_singleton]
            exact room }
      · rw [if_neg none_]
        have same : inDelivery (state.queue.pending ++ [⟨state.queue.made, event⟩])
            = inDelivery state.queue.pending :=
          List.take_append_of_le_length (List.length_pos_iff.mpr none_)
        exact {
          made := made
          accepted := by
            change state.accepted ++ [_] = state.finished.map Prod.fst ++ (state.queue.pending ++ [_])
            rw [orderly.accepted, List.append_assoc]
          started := by
            change state.started ++ [] = state.finished.map Prod.fst ++ inDelivery (_ ++ [_])
            rw [same, List.append_nil, orderly.started]
          drains := by
            change ∃ phase, state.queue.drains = (inDelivery (_ ++ [_])).map (drainAt phase)
            rw [same]
            exact orderly.drains
          bounded := by
            change (state.queue.pending ++ [_]).length ≤ state.queue.capacityValue
            rw [List.length_append, List.length_singleton]
            exact room }

/-- A flush makes a promise and changes nothing else. -/
theorem flush_eq (queue : BoundedEventQueue Event)
    : ∃ idle promised, queue.flush.1 = { queue with idle, promised } := by
  unfold BoundedEventQueue.flush
  by_cases none_ : queue.pending.length = 0
  · rw [if_pos none_]
    exact ⟨queue.idle, queue.promised, rfl⟩
  · rw [if_neg none_]
    cases idle : queue.idle with
    | none => exact ⟨_, _, rfl⟩
    | some promise => exact ⟨queue.idle, queue.promised, rfl⟩

theorem Orderly.flush (orderly : Orderly state) : Orderly state.flush := by
  obtain ⟨idle, promised, same⟩ := flush_eq state.queue
  rw [State.flush, same]
  exact ⟨orderly.made, orderly.accepted, orderly.started, orderly.drains, orderly.bounded⟩

theorem Orderly.close (orderly : Orderly state) (drain : Bool) : Orderly (state.close drain) := by
  have closed : Orderly { state with queue := { state.queue with closed := true } } :=
    ⟨orderly.made, orderly.accepted, orderly.started, orderly.drains, orderly.bounded⟩
  rw [State.close]
  cases drain with
  | true => exact closed.flush
  | false => exact closed

theorem Orderly.returns (orderly : Orderly state) {index : ℕ}
    (step : state.returns index = some next)
    : Orderly next := by
  rw [State.returns] at step
  split at step
  next => cases step
  next running found =>
    obtain ⟨first, rest, pending, rfl, same, single⟩ := orderly.running found
    split at step
    next delivering =>
      have awaiting : state.queue.drains.set 0 { running with phase := .awaiting }
          = (inDelivery state.queue.pending).map (drainAt .awaiting) := by
        rw [single, pending, same]
        rfl
      rw [← Option.some.inj step]
      exact ⟨orderly.made, orderly.accepted, orderly.started, ⟨.awaiting, awaiting⟩,
        orderly.bounded⟩
    next => cases step

theorem Orderly.settles (orderly : Orderly state) {index : ℕ} {outcome : Outcome}
    (step : state.settles index outcome = some next)
    : Orderly next := by
  obtain ⟨first, rest, settled⟩ := orderly.settled step
  have accepted := orderly.accepted
  have started := orderly.started
  have bounded := orderly.bounded
  rw [settled.pending] at accepted started bounded
  rw [settled.next]
  have finished : (state.finished ++ [(first, outcome)]).map Prod.fst
      = state.finished.map Prod.fst ++ [first] := List.map_append
  exact {
    made := orderly.made
    accepted := by
      change state.accepted = (state.finished ++ [(first, outcome)]).map Prod.fst ++ rest
      rw [finished, accepted, List.append_assoc]
      rfl
    started := by
      change state.started ++ inDelivery rest
        = (state.finished ++ [(first, outcome)]).map Prod.fst ++ inDelivery rest
      rw [finished, started]
      rfl
    drains := ⟨.delivering, rfl⟩
    bounded := (Nat.le_succ _).trans bounded }

theorem Orderly.step (orderly : Orderly state) {action : Action Event}
    (taken : state.step action = some next)
    : Orderly next := by
  cases action with
  | enqueue event => exact Option.some.inj taken ▸ orderly.enqueue event
  | flush => exact Option.some.inj taken ▸ orderly.flush
  | close drain => exact Option.some.inj taken ▸ orderly.close drain
  | returns index => exact orderly.returns taken
  | settles index outcome => exact orderly.settles taken
  | flushResolves call =>
      change state.flushResolves call = some next at taken
      rw [State.flushResolves] at taken
      split at taken
      next => cases taken
      next =>
        split at taken
        next =>
          rw [← Option.some.inj taken]
          exact ⟨orderly.made, orderly.accepted, orderly.started, orderly.drains, orderly.bounded⟩
        next => cases taken

theorem orderly_of_run {capacity : ℕ} {positive : 0 < capacity} {actions : List (Action Event)}
    (run : runFrom State.step (State.start capacity positive) actions = some state)
    : Orderly state :=
  runFrom_invariant Orderly (fun _ _ _ orderly taken => orderly.step taken)
    (orderly_start capacity positive) run

end Runs

end SpeculativeAction.EventQueue
