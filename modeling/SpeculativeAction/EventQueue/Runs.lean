import Mathlib.Data.List.Nodup
import SpeculativeAction.EventQueue.Flushes

/-! Runs of the event queue, from its construction on. The n-th delivery that ends is the one of the
n-th accepted event, however the deliveries before it ended.
-/

namespace SpeculativeAction.EventQueue

open SpeculativeAction.Library

variable {Event : Type*} {state next : State Event}

section Histories

def Action.isClose : Action Event → Bool
  | .close _ => true
  | _ => false

/-- Whether an action calls `flush`, by itself or from `close`. -/
def Action.flushes : Action Event → Bool
  | .flush => true
  | .close drain => drain
  | _ => false

def Action.outcome? : Action Event → Option Outcome
  | .settles _ outcome => some outcome
  | _ => none

/-- What an action leaves behind. -/
structure Advances (state : State Event) (action : Action Event) (next : State Event) : Prop where
  capacity : next.queue.capacityValue = state.queue.capacityValue
  closed : next.queue.closed = (state.queue.closed || action.isClose)
  accepted : state.accepted <+: next.accepted
  outcomes : next.finished.map Prod.snd = state.finished.map Prod.snd ++ action.outcome?.toList
  flushes : state.flushes <+: next.flushes
  called : action.flushes = true →
    ∃ awaits, next.flushes = state.flushes ++ [⟨state.accepted.length, awaits⟩]

/-- An action that ends no delivery. -/
theorem Advances.of_same {action : Action Event}
    (capacity : next.queue.capacityValue = state.queue.capacityValue)
    (closed : next.queue.closed = state.queue.closed) (isClose : action.isClose = false)
    (accepted : state.accepted <+: next.accepted) (finished : next.finished = state.finished)
    (outcome : action.outcome? = none) (flushes : next.flushes = state.flushes)
    (called : action.flushes = false)
    : Advances state action next where
  capacity := capacity
  closed := by rw [closed, isClose, Bool.or_false]
  accepted := accepted
  outcomes := by
    rw [finished, outcome]
    exact (List.append_nil _).symm
  flushes := flushes ▸ List.prefix_rfl
  called calls := absurd (calls.symm.trans called) Bool.false_ne_true.symm

theorem enqueue_advances (state : State Event) (event : Event)
    : Advances state (.enqueue event) (state.enqueue event) := by
  cases answer : (state.queue.enqueue event).accepted with
  | false =>
      rw [enqueue_of_refused answer]
      exact .of_same rfl rfl rfl List.prefix_rfl rfl rfl rfl rfl
  | true =>
      rw [State.enqueue, enqueue_of_accepted answer]
      by_cases none_ : state.queue.pending = []
      · rw [if_pos none_]
        exact .of_same rfl rfl rfl (List.prefix_append _ _) rfl rfl rfl rfl
      · rw [if_neg none_]
        exact .of_same rfl rfl rfl (List.prefix_append _ _) rfl rfl rfl rfl

theorem flush_advances (state : State Event) : Advances state .flush state.flush := by
  obtain ⟨idle, promised, same⟩ := flush_eq state.queue
  exact {
    capacity := by
      rw [State.flush, same]
    closed := by
      rw [State.flush, same]
      exact (Bool.or_false _).symm
    accepted := List.prefix_rfl
    outcomes := (List.append_nil _).symm
    flushes := List.prefix_append _ _
    called := fun _ => ⟨_, rfl⟩ }

theorem close_advances (state : State Event) (drain : Bool)
    : Advances state (.close drain) (state.close drain) := by
  have sealed := flush_advances { state with queue := { state.queue with closed := true } }
  rw [State.close]
  cases drain with
  | true =>
      exact {
        capacity := sealed.capacity
        closed := sealed.closed.trans (Bool.or_true _).symm
        accepted := sealed.accepted
        outcomes := sealed.outcomes
        flushes := sealed.flushes
        called := fun _ => sealed.called rfl }
  | false =>
      exact {
        capacity := rfl
        closed := (Bool.or_true _).symm
        accepted := List.prefix_rfl
        outcomes := (List.append_nil _).symm
        flushes := List.prefix_rfl
        called := fun calls => absurd calls Bool.false_ne_true }

theorem Orderly.advances (orderly : Orderly state) {action : Action Event}
    (taken : state.step action = some next)
    : Advances state action next := by
  cases action with
  | enqueue event => exact Option.some.inj taken ▸ enqueue_advances state event
  | flush => exact Option.some.inj taken ▸ flush_advances state
  | close drain => exact Option.some.inj taken ▸ close_advances state drain
  | returns index =>
      change state.returns index = some next at taken
      rw [State.returns] at taken
      split at taken
      next => cases taken
      next =>
        split at taken
        next =>
          rw [← Option.some.inj taken]
          exact .of_same rfl rfl rfl List.prefix_rfl rfl rfl rfl rfl
        next => cases taken
  | settles index outcome =>
      obtain ⟨first, rest, settled⟩ := orderly.settled taken
      rw [settled.next]
      exact {
        capacity := rfl
        closed := (Bool.or_false _).symm
        accepted := List.prefix_rfl
        outcomes := List.map_append
        flushes := List.prefix_rfl
        called := fun calls => absurd calls Bool.false_ne_true }
  | flushResolves call =>
      change state.flushResolves call = some next at taken
      rw [State.flushResolves] at taken
      split at taken
      next => cases taken
      next =>
        split at taken
        next =>
          rw [← Option.some.inj taken]
          exact .of_same rfl rfl rfl List.prefix_rfl rfl rfl rfl rfl
        next => cases taken

/-- What the actions of a run leave behind. -/
structure History (capacity : ℕ) (actions : List (Action Event)) (state : State Event) : Prop where
  orderly : Orderly state
  awaited : Awaited state
  capacity : state.queue.capacityValue = capacity
  closed : state.queue.closed = actions.any Action.isClose
  outcomes : state.finished.map Prod.snd = actions.filterMap Action.outcome?

theorem history_of_run {capacity : ℕ} {positive : 0 < capacity} {actions : List (Action Event)}
    (run : runFrom State.step (State.start capacity positive) actions = some state)
    : History capacity actions state := by
  refine runFrom_trace_invariant (History capacity) ?_ ?_ run
  · exact ⟨orderly_start capacity positive, awaited_start capacity positive, rfl, rfl, rfl⟩
  · intro taken state action next history step
    have advances := history.orderly.advances step
    refine ⟨history.orderly.step step, history.awaited.step history.orderly step,
      advances.capacity.trans history.capacity, ?_, ?_⟩
    · rw [advances.closed, history.closed, List.any_append, List.any_cons, List.any_nil,
        Bool.or_false]
    · rw [advances.outcomes, history.outcomes, List.filterMap_append, List.filterMap_cons]
      cases action.outcome? with
      | none => rfl
      | some outcome => rfl

/-- Flushes and accepted events stay where they are. -/
theorem grows_of_run {actions : List (Action Event)} (orderly : Orderly state)
    (run : runFrom State.step state actions = some next)
    : state.flushes <+: next.flushes ∧ state.accepted <+: next.accepted := by
  induction actions generalizing state with
  | nil => exact Option.some.inj run ▸ ⟨List.prefix_rfl, List.prefix_rfl⟩
  | cons action rest ih =>
      obtain ⟨middle, taken, later⟩ := runFrom_cons.mp run
      obtain ⟨flushes, accepted⟩ := ih (orderly.step taken) later
      have advances := orderly.advances taken
      exact ⟨advances.flushes.trans flushes, advances.accepted.trans accepted⟩

end Histories

-- Delivery

section Delivery

variable {capacity : ℕ} {positive : 0 < capacity} {actions : List (Action Event)}

theorem Orderly.finished_prefix (orderly : Orderly state)
    : state.finished.map Prod.fst <+: state.started :=
  orderly.started ▸ List.prefix_append _ _

theorem Orderly.started_prefix (orderly : Orderly state) : state.started <+: state.accepted := by
  rw [orderly.started, orderly.accepted]
  exact (List.prefix_append_right_inj _).mpr (List.take_prefix 1 _)

theorem Orderly.one_at_a_time (orderly : Orderly state)
    : state.started.length ≤ state.finished.length + 1 ∧ state.queue.drains.length ≤ 1 := by
  have single : (inDelivery state.queue.pending).length ≤ 1 := List.length_take_le 1 _
  obtain ⟨phase, drains⟩ := orderly.drains
  rw [orderly.started, drains, List.length_append, List.length_map, List.length_map]
  omega

/-- An unfinished event is pending. -/
theorem Orderly.pending_of_unfinished (orderly : Orderly state) {entry : Entry Event}
    (unfinished : state.accepted[state.finished.length]? = some entry)
    : ∃ rest, state.queue.pending = entry :: rest := by
  rw [orderly.accepted, List.getElem?_append_right (List.length_map _).le, List.length_map,
    Nat.sub_self, ← List.head?_eq_getElem?] at unfinished
  exact List.head?_eq_some_iff.mp unfinished

/-- A flush that resolved was called when only finished events had been accepted. -/
theorem flush_of_run {before : State Event} {call : Action Event}
    {first second : List (Action Event)}
    (earlier : runFrom State.step (State.start capacity positive) first = some before)
    (calls : call.flushes = true)
    (run : runFrom State.step (State.start capacity positive) (first ++ call :: second) = some state)
    (resolved : before.flushes.length ∈ state.flushed)
    : before.accepted <+: state.finished.map Prod.fst := by
  have history := history_of_run run
  obtain ⟨middle, found, later⟩ := runFrom_append.mp run
  obtain rfl := Option.some.inj (earlier.symm.trans found)
  obtain ⟨after, taken, rest⟩ := runFrom_cons.mp later
  have orderly := orderly_of_run earlier
  have advances := orderly.advances taken
  obtain ⟨awaits, called⟩ := advances.called calls
  obtain ⟨flushes, accepted⟩ := grows_of_run (orderly.step taken) rest
  obtain ⟨flush, atCall, finished⟩ := history.awaited.flushed _ resolved
  have same : flush = ⟨before.accepted.length, awaits⟩ := by
    obtain ⟨more, spelled⟩ := flushes
    rw [← spelled, called, List.append_assoc, List.getElem?_append_right le_rfl, Nat.sub_self]
      at atCall
    exact (Option.some.inj atCall).symm
  rw [same] at finished
  refine List.prefix_of_prefix_length_le (advances.accepted.trans accepted) ?_ ?_
  · exact history.orderly.finished_prefix.trans history.orderly.started_prefix
  · rw [List.length_map]
    exact finished

/-- What a queue of a capacity does in a run of actions, up to the state they lead to. -/
structure Delivers (capacity : ℕ) (positive : 0 < capacity) (actions : List (Action Event))
    (state : State Event) : Prop where
  /-- No two accepted entries are the same, so what is in their order comes once. -/
  distinct : state.accepted.Nodup
  started : state.started <+: state.accepted
  finished : state.finished.map Prod.fst <+: state.started
  oneAtATime : state.started.length ≤ state.finished.length + 1 ∧ state.queue.drains.length ≤ 1
  /-- An event is refused by a closed queue, and where `capacity` events are unfinished. -/
  refuses : ∀ event, (state.queue.enqueue event).accepted = false
    ↔ (∃ drain, Action.close drain ∈ actions)
      ∨ state.accepted.length - state.finished.length = capacity
  /-- The deliveries end in the order of the accepted events, each as it happens to end. -/
  outcomes : state.finished.map Prod.snd = actions.filterMap Action.outcome?
  /-- The first unfinished event is in delivery; every end its phase allows is followed by the
  delivery of the next one.
  -/
  delivers : ∀ entry, state.accepted[state.finished.length]? = some entry →
    ∃ phase, state.queue.drains = [drainAt phase entry]
      ∧ (phase = .delivering → ∃ next, state.returns 0 = some next
        ∧ next.queue.drains = [drainAt .awaiting entry] ∧ next.finished = state.finished)
      ∧ ∀ outcome : Outcome, outcome.phase = phase → ∃ next, state.settles 0 outcome = some next
        ∧ next.finished = state.finished ++ [(entry, outcome)] ∧ next.accepted = state.accepted
        ∧ next.started = state.accepted.take (state.finished.length + 2)
  /-- Without a drain everything accepted is finished. -/
  quiescent : state.queue.drains = [] → state.finished.map Prod.fst = state.accepted
  /-- A flush that resolved was called when only finished events had been accepted. -/
  flushes : ∀ first call second before, actions = first ++ call :: second →
    call.flushes = true → runFrom State.step (State.start capacity positive) first = some before →
    before.flushes.length ∈ state.flushed → before.accepted <+: state.finished.map Prod.fst

/-- The delivery of the first unfinished event. -/
theorem Orderly.delivers (orderly : Orderly state) {entry : Entry Event}
    (unfinished : state.accepted[state.finished.length]? = some entry)
    : ∃ phase, state.queue.drains = [drainAt phase entry]
      ∧ (phase = .delivering → ∃ next, state.returns 0 = some next
        ∧ next.queue.drains = [drainAt .awaiting entry] ∧ next.finished = state.finished)
      ∧ ∀ outcome : Outcome, outcome.phase = phase → ∃ next, state.settles 0 outcome = some next
        ∧ next.finished = state.finished ++ [(entry, outcome)] ∧ next.accepted = state.accepted
        ∧ next.started = state.accepted.take (state.finished.length + 2) := by
  obtain ⟨rest, pending⟩ := orderly.pending_of_unfinished unfinished
  obtain ⟨phase, drains⟩ := orderly.drains
  have single : state.queue.drains = [drainAt phase entry] := by
    rw [drains, pending]
    rfl
  refine ⟨phase, single, ?_, ?_⟩
  · rintro rfl
    exact ⟨_, returns_eq single, rfl, rfl⟩
  · intro outcome same
    obtain ⟨next, step⟩ := Option.isSome_iff_exists.mp
      (settles_isSome single outcome same)
    obtain ⟨first, others, settled⟩ := orderly.settled step
    obtain ⟨rfl, rfl⟩ := List.cons.inj (settled.pending.symm.trans pending)
    refine ⟨next, step, ?_, ?_, ?_⟩
    · rw [settled.next]
    · rw [settled.next]
    · rw [settled.next, orderly.accepted, pending, ← List.length_map Prod.fst]
      change state.started ++ _ = _
      rw [List.take_length_add_append, orderly.started, pending, List.append_assoc]
      rfl

theorem delivery_exact
    (run : runFrom State.step (State.start capacity positive) actions = some state)
    : Delivers capacity positive actions state := by
  have history := history_of_run run
  have orderly := history.orderly
  have lengths := orderly.length
  exact {
    distinct := List.Nodup.of_map Entry.id (orderly.made ▸ List.nodup_range)
    started := orderly.started_prefix
    finished := orderly.finished_prefix
    oneAtATime := orderly.one_at_a_time
    refuses := fun event => by
      have bounded := orderly.bounded
      rw [history.capacity] at bounded
      have closed : state.queue.closed = true ↔ ∃ drain, Action.close drain ∈ actions := by
        rw [history.closed, List.any_eq_true]
        constructor
        · rintro ⟨action, member, isClose⟩
          cases action with
          | close drain => exact ⟨drain, member⟩
          | enqueue | flush | returns | settles | flushResolves => cases isClose
        · rintro ⟨drain, member⟩
          exact ⟨_, member, rfl⟩
      rw [enqueue_refused, closed, history.capacity]
      refine or_congr_right ?_
      omega
    outcomes := history.outcomes
    delivers := fun entry unfinished => orderly.delivers unfinished
    quiescent := fun none_ => by
      obtain ⟨phase, drains⟩ := orderly.drains
      cases pending : state.queue.pending with
      | nil => rw [orderly.accepted, pending, List.append_nil]
      | cons first rest =>
          rw [none_, pending] at drains
          cases drains
    flushes := fun first call second before spelled calls earlier resolved => by
      subst spelled
      exact flush_of_run earlier calls run resolved }

/-- A queue of two: the second event comes from inside the first delivery and the third finds the
queue full; the first delivery is rejected and the second one throws.
-/
def reentrantRun : List (Action ℕ) :=
  [.enqueue 7, .enqueue 8, .enqueue 9, .flush, .returns 0, .settles 0 .rejected,
    .settles 0 .thrown, .flushResolves 0, .close true, .enqueue 5]

theorem delivery_exact_reentrant
    : ∃ state, runFrom State.step (State.start 2 (by decide)) reentrantRun = some state
      ∧ state.finished = [(⟨0, 7⟩, .rejected), (⟨1, 8⟩, .thrown)]
      ∧ Delivers 2 (by decide) reentrantRun state :=
  ⟨_, rfl, rfl, delivery_exact rfl⟩

end Delivery

end SpeculativeAction.EventQueue
