import SpeculativeAction.TaskTiming.NormalGraph

/-! `TimelineInterval.serialize` and `restore`: the complete evidence below a computation as a
persisted graph, and the independent computations that a stored graph is restored to.
-/

namespace SpeculativeAction.TaskTiming

open SpeculativeAction.Library
open Value

-- Serialization

section Serialize

variable {n : ℕ}

/-- What is persisted for one identity. -/
structure SerialEntry (n : ℕ) where
  computation : Fin n
  groups : List Identity
  producer : Option (Option ComputationProducer)

/-- Merge a computation into the entry for its identity. -/
def mergeEntry (graph : Timeline n) (prior : Option (SerialEntry n)) (current : Fin n)
    : SerialEntry n where
  computation := preferredComputation graph (prior.map (·.computation)) current
  groups :=
    InvertedIndex.insertMembers ((prior.map (·.groups)).getD []) (computationGroups graph current)
  producer := mergeProducers (prior.bind (·.producer)) (computationProducer graph current)

/-- Everything below the pending computations, each visited once. -/
def gather (graph : Timeline n) (pending : List (Fin n)) (visited : List (Fin n))
    (selected : OrderedMap Identity (SerialEntry n))
    : OrderedMap Identity (SerialEntry n) :=
  match pending with
  | [] => selected
  | current :: rest =>
      if current ∈ visited then gather graph rest visited selected
      else
        gather graph ((graph current).inputs.map (·.computation) ++ rest) (current :: visited)
          (selected.set (graph current).identity
            (mergeEntry graph (selected.get? (graph current).identity) current))
termination_by (Worklist.unseen visited, pending.length)
decreasing_by
  · exact .right _ (Nat.lt_succ_self _)
  · exact .left _ _ (Worklist.unseen_cons_lt ‹_›)

def textValue (text : Identity) : Value := .string text

def numberValue (value : ℚ) : Value := .number (.finite value)

/-- A field of a record in memory; what is absent is undefined. -/
def fieldValue (value : Option Value) : Value := value.getD .undefined

def Interval.rawValue (interval : Interval) : Value :=
  .object
    [("startedAt", numberValue interval.startedAt), ("completedAt", numberValue interval.completedAt)]

def ComputationProducer.rawValue (producer : ComputationProducer) : Value :=
  .object
    [("source", textValue producer.source),
      ("mode", fieldValue (producer.mode.map textValue)),
      ("id", fieldValue (producer.id.map textValue))]

/-- A shared overlap needs its clock and its ends only. -/
def rawPart (process : Process) (graph : Timeline n) (part : Fin n) : Value :=
  .object
    [("clock", textValue (computationClock process graph part)),
      ("startedAt", numberValue (graph part).startedAt),
      ("completedAt", numberValue (graph part).completedAt)]

/-- An input counts as owned by the computation that owns it last. -/
def ownedBy (graph : Timeline n) (id : Identity) (current : Fin n) (input : TimelineDependency n)
    : Bool :=
  input.owned
    && decide ((graph ((graph input.computation).owner.getD current)).identity = id)

def rawInput (process : Process) (graph : Timeline n) (id : Identity) (current : Fin n)
    (input : TimelineDependency n)
    : Value :=
  .object
    [("id", textValue (graph input.computation).identity),
      ("owned", .bool (ownedBy graph id current input)),
      ("reused", .bool input.reused),
      ("overhead", .bool input.overhead),
      ("computeUncertain", .bool input.computeUncertain),
      ("shared", .array (input.shared.map (rawPart process graph)))]

def rawNode (process : Process) (graph : Timeline n) (id : Identity) (entry : SerialEntry n)
    : Value :=
  let current := entry.computation
  .object
    [("id", textValue id),
      ("clock", textValue (computationClock process graph current)),
      ("startedAt", numberValue (graph current).startedAt),
      ("completedAt", numberValue (graph current).completedAt),
      ("timeOrigin",
        fieldValue ((computationTimeOrigin process graph current).map numberValue)),
      ("spans",
        fieldValue ((graph current).spans.map fun spans => .array (spans.map Interval.rawValue))),
      ("priorMs",
        if (graph current).priorMs = 0 then .undefined else numberValue (graph current).priorMs),
      ("producer", fieldValue (entry.producer.join.map ComputationProducer.rawValue)),
      ("groups", .array (entry.groups.map textValue)),
      ("incomplete", if (graph current).incomplete then .bool true else .undefined),
      ("inputs", .array ((graph current).inputs.map (rawInput process graph id current)))]

/-- The gathered identities that are not reached yet. -/
def unreached (selected : OrderedMap Identity (SerialEntry n)) (reachable : List Identity) : ℕ :=
  (selected.keys.filter (· ∉ reachable)).length

theorem unreached_lt {selected : OrderedMap Identity (SerialEntry n)} {reachable : List Identity}
    {id : Identity} (known : id ∈ selected.keys) (fresh : id ∉ reachable)
    : unreached selected (id :: reachable) < unreached selected reachable := by
  have narrowed
      : selected.keys.filter (· ∉ id :: reachable)
        = (selected.keys.filter (· ∉ reachable)).filter (fun other => decide (other ≠ id)) := by
    rw [List.filter_filter]
    refine List.filter_congr fun other _ => ?_
    simp [List.mem_cons, not_or]
  rw [unreached, unreached, narrowed, List.length_filter_lt_length_iff_exists]
  exact ⟨id, List.mem_filter.mpr ⟨known, decide_eq_true fresh⟩, by simp⟩

/-- The nodes reached from the remaining identities, the one added last first. -/
def rawNodes (process : Process) (graph : Timeline n)
    (selected : OrderedMap Identity (SerialEntry n)) (remaining reachable : List Identity)
    : List Value :=
  match remaining with
  | [] => []
  | id :: rest =>
      if id ∈ reachable then rawNodes process graph selected rest reachable
      else
        match _found : selected.get? id with
        | none => rawNodes process graph selected rest reachable
        | some entry =>
            rawNode process graph id entry
              :: rawNodes process graph selected
                (((graph entry.computation).inputs.map
                  fun input => (graph input.computation).identity).reverse ++ rest)
                (id :: reachable)
termination_by (unreached selected reachable, remaining.length)
decreasing_by
  · exact .right _ (Nat.lt_succ_self _)
  · exact .right _ (Nat.lt_succ_self _)
  · exact .left _ _ (unreached_lt (OrderedMap.mem_keys_iff.mpr ⟨entry, _found⟩) ‹_›)

/-- Persist the complete evidence used by `recordCall`. -/
def serialize (process : Process) (graph : Timeline n) (root : Fin n)
    : Option SerializedTimelineComputation :=
  normalizeTimelineComputation
    (.object
      [("version", numberValue 3),
        ("root", textValue (graph root).identity),
        ("nodes",
          .array
            (rawNodes process graph (gather graph [root] [] .empty) [(graph root).identity] []))])

end Serialize

-- Restoring

section Restore

/-- A timeline of restored computations, with the restored root. -/
structure RestoredTimeline where
  size : ℕ
  graph : Timeline size
  root : Fin size

def Endpoints.interval (ends : Endpoints) : Interval :=
  .new (.finite ends.startedAt.value) (.finite ends.completedAt.value)

def SerializedProducer.restored (producer : SerializedProducer) : ComputationProducer where
  source := producer.source.text
  mode := producer.mode.map (·.text)
  id := producer.id.map (·.text)

variable (nodes : List SerializedNode)

/-- The shared parts of all inputs. -/
def sharedPartsOf : List SerializedPart :=
  nodes.flatMap fun node => node.inputs.flatMap fun input => input.shared.getD []

/-- The restored computations: the nodes, then the shared parts. -/
abbrev restoredSize : ℕ := nodes.length + (sharedPartsOf nodes).length

/-- The restored computation of an identity. -/
def restoredIndex (id : Name) : Option (Fin (restoredSize nodes)) :=
  (nodes.findFinIdx? fun node => decide (node.id = id)).map (Fin.castAdd _)

/-- The restored span of a shared part; parts with one clock and the same ends are read alike,
so they share it.
-/
def restoredPart (part : SerializedPart) : Option (Fin (restoredSize nodes)) :=
  ((sharedPartsOf nodes).findFinIdx? fun other => decide (other = part)).map (Fin.natAdd _)

def restoredInput (input : SerializedInput)
    : Option (TimelineDependency (restoredSize nodes)) :=
  (restoredIndex nodes input.id).map fun computation =>
    { computation := computation
      owned := input.owned
      reused := input.reused
      overhead := input.overhead
      computeUncertain := input.computeUncertain
      shared :=
        match input.shared with
        | some parts => parts.filterMap (restoredPart nodes)
        | none => if input.overhead then [computation] else [] }

/-- Each constructed owner of an input replaces the one before. -/
def restoredOwner (id : Name) : Option (Fin nodes.length) :=
  (List.finRange nodes.length).reverse.find? fun index =>
    (nodes.get index).inputs.any fun input => input.owned && decide (input.id = id)

def restoredNode (node : SerializedNode) : TimelineInterval (restoredSize nodes) :=
  { node.ends.interval with
    inputs := node.inputs.filterMap (restoredInput nodes)
    spans := node.spans.map fun spans => spans.map Endpoints.interval
    owner := (restoredOwner nodes node.id).map (Fin.castAdd _)
    producer := node.producer.map SerializedProducer.restored
    identity := node.id.text
    clock := some node.clock.text
    timeOrigin := node.timeOrigin.map (·.value)
    priorMs := (node.priorMs.map (·.value)).getD 0
    prior_nonneg := by
      cases node.priorMs with
      | none => exact le_refl _
      | some prior => exact prior.nonneg
    groups := node.groups.map (·.text)
    incomplete := node.incomplete }

/-- A shared part has a clock and its ends; nothing asks for its identity. -/
def restoredSpan (part : SerializedPart) : TimelineInterval (restoredSize nodes) :=
  { part.ends.interval with
    identity := ""
    clock := some part.clock.text
    prior_nonneg := zero_nonneg }

def restoredTimeline : Timeline (restoredSize nodes) := fun index =>
  Fin.addCases (motive := fun _ => TimelineInterval (restoredSize nodes))
    (fun node => restoredNode nodes (nodes.get node))
    (fun part => restoredSpan nodes ((sharedPartsOf nodes).get part)) index

/-- Each restore is independent; stable identities join only within the receiving call. -/
def restore (value : Value) : Option RestoredTimeline :=
  (normalizeTimelineComputation value).bind fun graph =>
    (restoredIndex graph.nodes graph.root).map fun root =>
      { size := restoredSize graph.nodes
        graph := restoredTimeline graph.nodes
        root := root }

end Restore

end SpeculativeAction.TaskTiming
