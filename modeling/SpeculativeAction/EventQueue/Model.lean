import SpeculativeAction.Numbers
import SpeculativeAction.Library.TransitionSystem

/-! The bounded event queue, and every order of its calls. A drain walks over the pending set while
the set grows; a queue here keeps every walk that is under way, so that there is one at most is a
result and not an assumption.
-/

namespace SpeculativeAction.EventQueue

-- The queue

/-- An object of the pending set. Two objects are told apart by when they were made. -/
structure Entry (Event : Type*) where
  id : ℕ
  value : Event
deriving DecidableEq, Repr

/-- Where a drain stands: inside the call of `deliver`, or at the `await` behind it. -/
inductive Phase where
  | delivering
  | awaiting
deriving DecidableEq, Repr

/-- How a delivery ends. -/
inductive Outcome where
  | resolved
  | rejected
  | thrown
deriving DecidableEq, Repr

/-- A call throws while it is made; a promise settles while it is awaited. -/
def Outcome.phase : Outcome → Phase
  | .thrown => .delivering
  | .resolved | .rejected => .awaiting

/-- A run of `drain` inside its loop. -/
structure Drain (Event : Type*) where
  /-- The iterator passed every object made before this one. -/
  visited : ℕ
  next : Entry Event
  phase : Phase
deriving DecidableEq, Repr

/-- The fields of the class, with the objects and promises made so far and the running drains. -/
structure BoundedEventQueue (Event : Type*) where
  capacityValue : ℕ
  pending : List (Entry Event)
  idle : Option ℕ
  closed : Bool
  made : ℕ
  promised : ℕ
  resolved : List ℕ
  drains : List (Drain Event)
  positive : 0 < capacityValue

variable {Event : Type*}

namespace BoundedEventQueue

def empty (capacity : ℕ) (positive : 0 < capacity) : BoundedEventQueue Event where
  capacityValue := capacity
  pending := []
  idle := none
  closed := false
  made := 0
  promised := 0
  resolved := []
  drains := []
  positive := positive

/-- The constructor. -/
def create (capacity : Number) : Except String (BoundedEventQueue Event) :=
  match capacity.safeCount? with
  | none => .error "event queue capacity must be positive"
  | some count =>
      if positive : 0 < count then .ok (empty count positive)
      else .error "event queue capacity must be positive"

/-- The loop of `drain` from its iterator on: the first pending object it has not passed is
delivered. Behind the last one the waiting flushes are released.
-/
def drain (queue : BoundedEventQueue Event) (visited : ℕ)
    : BoundedEventQueue Event × List (Entry Event) :=
  match queue.pending.find? fun entry => decide (visited ≤ entry.id) with
  | some next =>
      ({ queue with drains := ⟨next.id + 1, next, .delivering⟩ :: queue.drains }, [next])
  | none => ({ queue with resolved := queue.resolved ++ queue.idle.toList, idle := none }, [])

/-- The queue with one more object, as `pending.add` leaves it. -/
def add (queue : BoundedEventQueue Event) (event : Event) : BoundedEventQueue Event :=
  { queue with pending := queue.pending ++ [⟨queue.made, event⟩], made := queue.made + 1 }

/-- What a call of `enqueue` answers, and which object it delivers before it returns. -/
structure Enqueued (Event : Type*) where
  accepted : Bool
  queue : BoundedEventQueue Event
  delivered : List (Entry Event)

def enqueue (queue : BoundedEventQueue Event) (event : Event) : Enqueued Event :=
  if queue.closed then ⟨false, queue, []⟩
  else if queue.capacityValue ≤ queue.pending.length then ⟨false, queue, []⟩
  else
    let added := queue.add event
    if added.pending.length = 1 then ⟨true, (added.drain 0).1, (added.drain 0).2⟩
    else ⟨true, added, []⟩

/-- `flush` up to its `await`: the promise it awaits, if there is one. -/
def flush (queue : BoundedEventQueue Event) : BoundedEventQueue Event × Option ℕ :=
  if queue.pending.length = 0 then (queue, none)
  else
    match queue.idle with
    | some promise => (queue, some promise)
    | none =>
        ({ queue with idle := some queue.promised, promised := queue.promised + 1 },
          some queue.promised)

/-- A drain goes on behind its `await` or its `catch`: the object is deleted. -/
def settle (queue : BoundedEventQueue Event) (index : ℕ) (running : Drain Event)
    : BoundedEventQueue Event × List (Entry Event) :=
  drain
    { queue with
      pending := queue.pending.filter fun entry => decide (entry.id ≠ running.next.id)
      drains := queue.drains.eraseIdx index }
    running.visited

end BoundedEventQueue

-- Its runs

/-- A call of `flush`: how many events were accepted before it, and the promise it awaits. -/
structure Flush where
  accepted : ℕ
  awaits : Option ℕ
deriving DecidableEq, Repr

/-- A queue and what was observed of it. -/
structure State (Event : Type*) where
  queue : BoundedEventQueue Event
  accepted : List (Entry Event)
  started : List (Entry Event)
  finished : List (Entry Event × Outcome)
  flushes : List Flush
  /-- The flushes that resolved, by their position. -/
  flushed : List ℕ

/-- Calls come at any time; while a drain delivers, they are the calls from inside `deliver`. -/
inductive Action (Event : Type*) where
  | enqueue (event : Event)
  | flush
  | close (drain : Bool)
  | returns (index : ℕ)
  | settles (index : ℕ) (outcome : Outcome)
  | flushResolves (call : ℕ)
deriving DecidableEq, Repr

namespace State

def start (capacity : ℕ) (positive : 0 < capacity) : State Event where
  queue := .empty capacity positive
  accepted := []
  started := []
  finished := []
  flushes := []
  flushed := []

/-- An entry is accepted where the call answers `true`. -/
def enqueue (state : State Event) (event : Event) : State Event :=
  let result := state.queue.enqueue event
  { state with
    queue := result.queue
    accepted :=
      state.accepted ++ (if result.accepted then [⟨state.queue.made, event⟩] else [])
    started := state.started ++ result.delivered }

def flush (state : State Event) : State Event :=
  { state with
    queue := state.queue.flush.1
    flushes := state.flushes ++ [⟨state.accepted.length, state.queue.flush.2⟩] }

/-- `close`, where `drain` says that `options.drain` is not `false`. -/
def close (state : State Event) (drain : Bool) : State Event :=
  let sealed := { state with queue := { state.queue with closed := true } }
  if drain then sealed.flush else sealed

/-- `deliver` returned, and the drain awaits what it returned. -/
def returns (state : State Event) (index : ℕ) : Option (State Event) :=
  match state.queue.drains[index]? with
  | none => none
  | some running =>
      if running.phase = .delivering then
        some { state with
          queue := { state.queue with
            drains := state.queue.drains.set index { running with phase := .awaiting } } }
      else none

/-- A delivery ends. -/
def settles (state : State Event) (index : ℕ) (outcome : Outcome) : Option (State Event) :=
  match state.queue.drains[index]? with
  | none => none
  | some running =>
      if running.phase = outcome.phase then
        some { state with
          queue := (state.queue.settle index running).1
          started := state.started ++ (state.queue.settle index running).2
          finished := state.finished ++ [(running.next, outcome)] }
      else none

/-- A flush resolves once the promise it awaits did. -/
def flushResolves (state : State Event) (call : ℕ) : Option (State Event) :=
  match state.flushes[call]? with
  | none => none
  | some flush =>
      if ∀ promise ∈ flush.awaits, promise ∈ state.queue.resolved then
        some { state with flushed := state.flushed ++ [call] }
      else none

def step (state : State Event) : Action Event → Option (State Event)
  | .enqueue event => some (state.enqueue event)
  | .flush => some state.flush
  | .close drain => some (state.close drain)
  | .returns index => state.returns index
  | .settles index outcome => state.settles index outcome
  | .flushResolves call => state.flushResolves call

end State

end SpeculativeAction.EventQueue
