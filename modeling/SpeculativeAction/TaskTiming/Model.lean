import SpeculativeAction.Numbers
import SpeculativeAction.Library.Grouping
import SpeculativeAction.Library.InvertedIndex
import SpeculativeAction.Library.UnionFind
import SpeculativeAction.Library.Worklist
import SpeculativeAction.TaskTiming.Intervals

/-! Calculation evidence and what one settled call consumed of it. Computations are referred
to by the order of their creation; identities are the strings they are known by, fixed when
they are first asked for. Arithmetic is exact.
-/

namespace SpeculativeAction.TaskTiming

open SpeculativeAction.Library

section Evidence

abbrev Identity := String
abbrev Clock := String

structure ComputationProducer where
  source : String
  mode : Option String := none
  id : Option String := none
deriving DecidableEq, Repr

/-- An interval as it is constructed: it starts no earlier than zero and does not end before
it starts.
-/
structure Interval extends Span where
  nonneg : 0 ≤ startedAt
  lasting : startedAt ≤ completedAt

/-- Clamp the measured ends of an interval. -/
def Interval.new (startedAt completedAt : Number) : Interval where
  startedAt := startedAt.nonNegativeFinite
  completedAt := max startedAt.nonNegativeFinite completedAt.nonNegativeFinite
  nonneg := Number.nonNegativeFinite_nonneg startedAt
  lasting := le_max_left _ _

structure TimelineDependency (n : ℕ) where
  computation : Fin n
  /-- Work produced here retains its enclosing tool's parallelism. -/
  owned : Bool := false
  /-- Only a successful consumption of existing work issues this receipt. -/
  reused : Bool := false
  /-- Adoption-time validation and delivery are excluded. -/
  overhead : Bool := false
  /-- The boundary cannot separate remaining calculation from adoption overhead. -/
  computeUncertain : Bool := false
  /-- Parts already included in the enclosing computation, or spent joining this input. -/
  shared : List (Fin n) := []
deriving DecidableEq

/-- One computation with its evidence. -/
structure TimelineInterval (n : ℕ) extends Interval where
  inputs : List (TimelineDependency n) := []
  spans : Option (List Interval) := none
  owner : Option (Fin n) := none
  producer : Option ComputationProducer := none
  identity : Identity
  clock : Option Clock := none
  timeOrigin : Option ℚ := none
  priorMs : ℚ := 0
  prior_nonneg : 0 ≤ priorMs
  groups : List Identity := []
  incomplete : Bool := false

/-- Finitely many computations; an owner is a later computation than what it owns. -/
abbrev Timeline (n : ℕ) := Fin n → TimelineInterval n

/-- What the running process calls its own clock, and when that clock started. -/
structure Process where
  identityNamespace : Clock
  timeOrigin : ℚ

variable {n : ℕ}

def computationClock (process : Process) (graph : Timeline n) (computation : Fin n) : Clock :=
  (graph computation).clock.getD process.identityNamespace

def computationTimeOrigin (process : Process) (graph : Timeline n) (computation : Fin n)
    : Option ℚ :=
  if computationClock process graph computation = process.identityNamespace then
    some process.timeOrigin
  else (graph computation).timeOrigin

/-- A computation and its owners; no more of them exist than computations. -/
def ownerChain (graph : Timeline n) : ℕ → Fin n → List (Fin n)
  | 0, _ => []
  | fuel + 1, computation =>
      computation :: match (graph computation).owner with
        | some owner => ownerChain graph fuel owner
        | none => []

/-- Ownership passes production provenance to children. -/
def computationProducer (graph : Timeline n) (computation : Fin n) : Option ComputationProducer :=
  (ownerChain graph n computation).findSome? fun current => (graph current).producer

/-- Follow ownership only to obtain aliases. -/
def computationGroups (graph : Timeline n) (computation : Fin n) : List Identity :=
  (ownerChain graph n computation).foldl
    (fun groups current =>
      InvertedIndex.insertMembers groups
        ((graph current).groups
          ++ ((graph current).owner.map fun owner => (graph owner).identity).toList))
    []

/-- Complete evidence before incomplete, a proper interval before an empty one. -/
def preferredComputation (graph : Timeline n) (previous : Option (Fin n)) (current : Fin n)
    : Fin n :=
  match previous with
  | none => current
  | some previous =>
      if (graph previous).incomplete && !(graph current).incomplete then current
      else if (graph current).incomplete && !(graph previous).incomplete then previous
      else if (graph previous).completedAt ≤ (graph previous).startedAt
          ∧ (graph current).startedAt < (graph current).completedAt then
        current
      else previous

/-- Two known values that differ. -/
def conflict (left right : Option String) : Bool :=
  match left, right with
  | some left, some right => decide (left ≠ right)
  | _, _ => false

/-- Merge provenance; `some none` marks provenance in conflict. -/
def mergeProducers (previous : Option (Option ComputationProducer))
    (current : Option ComputationProducer)
    : Option (Option ComputationProducer) :=
  match previous, current with
  | some none, _ => some none
  | some (some previous), some current =>
      if conflict (some previous.source) (some current.source)
          || conflict previous.mode current.mode || conflict previous.id current.id then
        some none
      else
        some (some {
          source := current.source
          mode := previous.mode.or current.mode
          id := previous.id.or current.id
        })
  | some previous, none => some previous
  | none, current => current.map some

end Evidence

section Consumption

variable {n : ℕ}

/-- A computation chosen for an identity, and whether it was reached without and with reuse. -/
structure Selected (n : ℕ) where
  computation : Fin n
  own : Bool
  reused : Bool
  producer : Option (Option ComputationProducer)
deriving DecidableEq

structure Consumed (n : ℕ) where
  selected : OrderedMap Identity (Selected n) := .empty
  visited : List (Fin n × Bool) := []
  groups : UnionFind Identity := .empty
  complete : Bool := true
  incomplete : Bool := false

/-- A dependency still to be followed, and whether it lies below a reused one. -/
structure Pending (n : ℕ) where
  input : TimelineDependency n
  inheritedReuse : Bool

def Pending.reused (item : Pending n) : Bool := item.inheritedReuse || item.input.reused

/-- The visit an item asks for; overhead asks for none. -/
def Pending.visit (item : Pending n) : Option (Fin n × Bool) :=
  if item.input.overhead then none else some (item.input.computation, item.reused)

/-- The inputs of a visited computation, in their order. -/
def inputsOf (graph : Timeline n) (visit : Fin n × Bool) : List (Pending n) :=
  (graph visit.1).inputs.map fun input => { input, inheritedReuse := visit.2 }

instance decidableVisited (visit : Fin n × Bool) (visited : List (Fin n × Bool))
    : Decidable (visit ∈ visited) :=
  List.instDecidableMemOfLawfulBEq visit visited

/-- Note what an uncertain boundary leaves open. -/
def Consumed.examine (state : Consumed n) (item : Pending n) : Consumed n :=
  if item.input.computeUncertain then
    { state with complete := false, incomplete := state.incomplete || item.reused }
  else state

/-- Visit a computation: join its groups and merge it into the choice for its identity. -/
def Consumed.select (graph : Timeline n) (state : Consumed n) (visit : Fin n × Bool)
    : Consumed n :=
  let key := (graph visit.1).identity
  let previous := state.selected.get? key
  {
    state with
    visited := visit :: state.visited
    groups := (computationGroups graph visit.1).foldl (fun groups group => groups.join key group)
      state.groups
    selected := state.selected.set key {
      computation := preferredComputation graph (previous.map (·.computation)) visit.1
      own := previous.any (·.own) || !visit.2
      reused := previous.any (·.reused) || visit.2
      producer := mergeProducers (previous.bind (·.producer)) (computationProducer graph visit.1)
    }
  }

/-- Follow the pending dependencies, depth first, each computation once for each flag. -/
def consume (graph : Timeline n) (pending : List (Pending n)) (state : Consumed n) : Consumed n :=
  match pending with
  | [] => state
  | item :: rest =>
      match item.visit with
      | none => consume graph rest (state.examine item)
      | some visit =>
          if visit ∈ state.visited then consume graph rest (state.examine item)
          else
            consume graph (inputsOf graph visit ++ rest) ((state.examine item).select graph visit)
termination_by (Worklist.unseen state.visited, pending.length)
decreasing_by
  · rw [show (state.examine item).visited = state.visited by unfold Consumed.examine; split <;> rfl]
    exact .right _ (Nat.lt_succ_self _)
  · rw [show (state.examine item).visited = state.visited by unfold Consumed.examine; split <;> rfl]
    exact .right _ (Nat.lt_succ_self _)
  · refine .left _ _ ?_
    have visited
        : ((state.examine item).select graph visit).visited = visit :: state.visited := by
      unfold Consumed.select Consumed.examine
      split <;> rfl
    rw [visited]
    exact Worklist.unseen_cons_lt ‹_›

def consumedComputations (graph : Timeline n) (roots : List (TimelineDependency n)) : Consumed n :=
  consume graph (roots.map fun input => { input, inheritedReuse := false }) {}

end Consumption

section Call

variable {n : ℕ}

/-- A producer whose mode is known. -/
structure ModeProducer where
  source : String
  mode : String
deriving DecidableEq

def ComputationProducer.withMode? (producer : ComputationProducer) : Option ModeProducer :=
  producer.mode.bind fun mode => if mode = "" then none else some { source := producer.source, mode }

structure ModeComputationTiming where
  source : String
  mode : String
  hiddenComputeMs : ℚ
deriving DecidableEq

structure ToolComputationTiming where
  /-- All calculation actually used by this call. -/
  toolComputeMs : Option ℚ
  /-- Successfully reused calculation completed before this call was issued. -/
  hiddenComputeMs : ℚ
  /-- Actor wait outside consumed execution boundaries. -/
  adoptionWaitMs : Option ℚ
  reused : Bool
  hiddenComputeIncomplete : Bool
  hiddenByMode : List ModeComputationTiming
deriving DecidableEq

structure TaskTimeline where
  adoptionWaits : Option (List Span) := some []
  toolComputeMs : Option ℚ := some 0
  hiddenComputeMs : ℚ := 0
  hiddenComputeIncomplete : Bool := false

/-- The value of a finite number. -/
def finite? : Number → Option ℚ
  | .finite value => some value
  | _ => none

/-- The parts of a computation that its inputs account for, on its own clock. -/
def sharedParts (process : Process) (graph : Timeline n) (computation : Fin n) : List Span :=
  ((graph computation).inputs.flatMap fun input =>
    input.shared.flatMap fun part =>
      if computationClock process graph part ≠ computationClock process graph computation then []
      else if computationClock process graph part
          = computationClock process graph input.computation then
        [{
          startedAt := max (graph input.computation).startedAt (graph part).startedAt
          completedAt := min (graph input.computation).completedAt (graph part).completedAt
        }]
      else [(graph part).toSpan]).filter fun part => decide (part.startedAt < part.completedAt)

/-- The calculation of a computation that is not its inputs'. -/
def ownIntervals (process : Process) (graph : Timeline n) (computation : Fin n) : List Span :=
  ((graph computation).spans.getD [(graph computation).toInterval]).flatMap fun span =>
    exclusiveIntervals span.toSpan (sharedParts process graph computation)

/-- When the call was issued, on the clock of a computation. -/
def cutoff (process : Process) (graph : Timeline n) (computation : Fin n) (issuedAt : Number)
    : Option ℚ :=
  (finite? issuedAt).bind fun issued =>
    if computationClock process graph computation = process.identityNamespace then some issued
    else
      (computationTimeOrigin process graph computation).map fun origin =>
        issued + (process.timeOrigin - origin)

/-- The intervals before the cutoff. -/
def beforeCutoff (cutoff : ℚ) (intervals : List Span) : List Span :=
  (intervals.filter fun span => decide (span.startedAt < cutoff)).map fun span =>
    { span with completedAt := min span.completedAt cutoff }

/-- The running account of one call. -/
structure Account where
  complete : Bool
  hiddenComputeIncomplete : Bool
  adoptionComplete : Bool
  groups : UnionFind Identity
  observed : List Span := []
  grouped : OrderedMap (Identity × Clock) (List Span) := .empty
  attributed : OrderedMap (Identity × Clock) (List (Span × Option ModeProducer)) := .empty
  priorMs : ℚ := 0
  reused : Bool := false

/-- Enter one selected computation into the account. -/
def Account.enter (process : Process) (graph : Timeline n) (issuedAt : Number) (account : Account)
    (entry : Selected n)
    : Account :=
  let computation := entry.computation
  let all := ownIntervals process graph computation
  let (root, groups) := account.groups.owner (graph computation).identity
  let owner := (root, computationClock process graph computation)
  let limit := cutoff process graph computation issuedAt
  let unmeasured := decide (0 < (graph computation).priorMs) || (!all.isEmpty && limit.isNone)
  let adoptionComplete := account.adoptionComplete && !unmeasured
  let observed :=
    match adoptionComplete, finite? issuedAt, limit with
    | true, some issued, some limit =>
        account.observed ++ all.map fun span => {
          startedAt := span.startedAt + issued - limit
          completedAt := span.completedAt + issued - limit
        }
    | _, _, _ => account.observed
  let hidden :=
    match limit with
    | some limit => if entry.reused then beforeCutoff limit all else []
    | none => []
  let producer := entry.producer.bind fun producer => producer.bind (·.withMode?)
  {
    complete := account.complete && !(graph computation).incomplete
    hiddenComputeIncomplete :=
      account.hiddenComputeIncomplete
        || (entry.reused && ((graph computation).incomplete || unmeasured))
    adoptionComplete
    groups
    observed
    grouped := pushAll account.grouped owner all
    attributed :=
      if entry.reused then
        pushAll account.attributed owner (hidden.map fun interval => (interval, producer))
      else account.attributed
    priorMs := account.priorMs + (graph computation).priorMs
    reused := account.reused || entry.reused
  }

def producerKey (producer : ModeProducer) : String × String := (producer.source, producer.mode)

/-- Credit a duration to a producer's mode. -/
def credit (modes : OrderedMap (String × String) ℚ) (producer : ModeProducer) (duration : ℚ)
    : OrderedMap (String × String) ℚ :=
  if duration ≤ 0 then modes
  else modes.set (producerKey producer) ((modes.get? (producerKey producer)).getD 0 + duration)

/-- The hidden time of all groups and what each mode is credited of it. -/
def hiddenTotal (groups : List (List (Span × Option ModeProducer)))
    : ℚ × OrderedMap (String × String) ℚ :=
  groups.foldl
    (fun total spans =>
      let counted := attributeUnion producerKey credit spans total.2
      (total.1 + counted.1, counted.2))
    (0, .empty)

/-- A wait can be measured when the call was issued and completed, in that order. -/
def adoptable (issuedAt : Number) (completedAt : Option Number) : Bool :=
  match finite? issuedAt, completedAt.bind finite? with
  | some issued, some completed => decide (issued ≤ completed)
  | _, _ => false

/-- The account of everything the roots consumed. -/
def account (process : Process) (graph : Timeline n) (roots : List (TimelineDependency n))
    (issuedAt : Number) (completedAt : Option Number)
    : Account :=
  let consumed := consumedComputations graph roots
  consumed.selected.values.foldl (Account.enter process graph issuedAt) {
    complete := consumed.complete
    hiddenComputeIncomplete := consumed.incomplete || (finite? issuedAt).isNone
    adoptionComplete := adoptable issuedAt completedAt
    groups := consumed.groups
  }

/-- Exactly one settled call. Shared work counts once here. -/
def recordCall (process : Process) (graph : Timeline n) (timeline : TaskTimeline)
    (roots : List (TimelineDependency n)) (issuedAt : Number) (completedAt : Option Number)
    : TaskTimeline × ToolComputationTiming :=
  let account := account process graph roots issuedAt completedAt
  let toolComputeMs := account.priorMs + (account.grouped.values.map unionDuration).sum
  let (hiddenComputeMs, modes) := hiddenTotal account.attributed.values
  let adoption :=
    if account.complete && account.adoptionComplete then
      completedAt.map fun completedAt =>
        exclusiveIntervals (Interval.new issuedAt completedAt).toSpan account.observed
    else none
  let timing : ToolComputationTiming := {
    toolComputeMs := if account.complete then some toolComputeMs else none
    hiddenComputeMs
    adoptionWaitMs := adoption.map unionDuration
    reused := account.reused
    hiddenComputeIncomplete := account.hiddenComputeIncomplete
    hiddenByMode := modes.entries.map fun entry =>
      { source := entry.1.1, mode := entry.1.2, hiddenComputeMs := entry.2 }
  }
  ({
    adoptionWaits := match timeline.adoptionWaits, adoption with
      | some waits, some adoption => some (waits ++ adoption)
      | _, _ => none
    toolComputeMs := match timeline.toolComputeMs, timing.toolComputeMs with
      | some before, some now => some (before + now)
      | _, _ => none
    hiddenComputeMs := timeline.hiddenComputeMs + hiddenComputeMs
    hiddenComputeIncomplete := timeline.hiddenComputeIncomplete || account.hiddenComputeIncomplete
  }, timing)

end Call

end SpeculativeAction.TaskTiming
