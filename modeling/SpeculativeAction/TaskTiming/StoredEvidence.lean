import SpeculativeAction.TaskTiming.Consumption
import SpeculativeAction.TaskTiming.Persistence

/-! What the nodes of a serialized graph say of the computations they were written from. -/

namespace SpeculativeAction.TaskTiming

open SpeculativeAction.Library
open Value

-- Reading back raw parts

section Raw

variable {n : ℕ} {fields : List (String × Value)}

theorem identity?_textValue {text : Identity} {name : Name}
    (read : identity? (textValue text) = some name)
    : name.text = text := by
  unfold identity? textValue at read
  dsimp only at read
  split at read
  · rw [← Option.some.inj read]
  · cases read

theorem duration?_numberValue {value : ℚ} {duration : Duration}
    (read : duration? (numberValue value) = some duration)
    : duration.value = value := by
  unfold duration? numberValue at read
  dsimp only at read
  split at read
  · rw [← Option.some.inj read]
  · cases read

/-- A field that may be undefined reads back as it was written. -/
theorem optional_fieldValue {α β : Type} {parse : Value → Option β} {write : α → Value}
    {value : Option α} {result : Option β} (read : β → α) (defined : ∀ one, write one ≠ .undefined)
    (back : ∀ one found, parse (write one) = some found → read found = one)
    (parsed : optional parse (fieldValue (value.map write)) = some result)
    : result.map read = value := by
  cases value with
  | none =>
      obtain rfl := Option.some.inj parsed
      rfl
  | some one =>
      have inner : (parse (write one)).map some = some result := by
        unfold Value.optional at parsed
        split at parsed
        next same => exact absurd same (defined one)
        next => exact parsed
      obtain ⟨found, accepted, same⟩ := Option.map_eq_some_iff.mp inner
      rw [← same, Option.map_some, back one found accepted]

theorem collectAll_textValue {texts : List Identity} {names : List Name}
    (read : collectAll identity? (texts.map textValue) = some names)
    : names.map (·.text) = texts := by
  rw [collectAll_eq_some_iff, List.forall₂_map_left_iff] at read
  induction read with
  | nil => rfl
  | cons first _ ih => rw [List.map_cons, identity?_textValue first, ih]

theorem records_array {α β : Type} {parse : List (String × Value) → Option β} {write : α → Value}
    {items : List α} {result : Option (List β)}
    (read : records parse (.array (items.map write)) = some result)
    : ∃ found, result = some found
        ∧ List.Forall₂ (fun one item => (record? (write item)).bind parse = some one) found
          items := by
  obtain ⟨found, collected, same⟩ := Option.map_eq_some_iff.mp read
  rw [collectAll_eq_some_iff, List.forall₂_map_left_iff] at collected
  exact ⟨found, same.symm, collected.flip⟩

theorem parseFlag_bool {key : String} {given value : Bool} (held : field fields key = .bool given)
    (read : parseFlag fields key = some value)
    : value = given := by
  rw [parseFlag, held] at read
  exact (Option.some.inj read).symm

theorem endpoints?_spec {ends : Endpoints} {first last : ℚ}
    (startedAt : field fields "startedAt" = numberValue first)
    (completedAt : field fields "completedAt" = numberValue last)
    (read : endpoints? fields = some ends)
    : ends.startedAt.value = first ∧ ends.completedAt.value = last := by
  rw [endpoints?, startedAt, completedAt] at read
  obtain ⟨one, readOne, later⟩ := Option.bind_eq_some_iff.mp read
  obtain ⟨two, readTwo, inner⟩ := Option.bind_eq_some_iff.mp later
  split at inner
  · rw [← Option.some.inj inner]
    exact ⟨duration?_numberValue readOne, duration?_numberValue readTwo⟩
  · cases inner

/-- The ends of an interval restore it; clamping them changes nothing. -/
theorem interval_of_ends {ends : Endpoints} {interval : Interval}
    (startedAt : ends.startedAt.value = interval.startedAt)
    (completedAt : ends.completedAt.value = interval.completedAt)
    : ends.interval = interval := by
  have start : (Number.finite ends.startedAt.value).nonNegativeFinite = interval.startedAt := by
    rw [startedAt, Number.nonNegativeFinite, max_eq_right interval.nonneg]
  have finish
      : max (Number.finite ends.startedAt.value).nonNegativeFinite
          (Number.finite ends.completedAt.value).nonNegativeFinite
        = interval.completedAt := by
    rw [start, completedAt, Number.nonNegativeFinite,
      max_eq_right (interval.nonneg.trans interval.lasting), max_eq_right interval.lasting]
  obtain ⟨⟨first, last⟩, nonneg, lasting⟩ := interval
  simp only [Endpoints.interval, Interval.new]
  simp only at start finish
  subst start finish
  rfl

end Raw

-- Stored nodes

section Stored

variable {n : ℕ} {process : Process} {graph : Timeline n}

structure StoredPart (process : Process) (graph : Timeline n) (part : SerializedPart)
    (original : Fin n)
    : Prop where
  clock : part.clock.text = computationClock process graph original
  interval : part.ends.interval = (graph original).toInterval

structure StoredInput (process : Process) (graph : Timeline n) (current : Fin n)
    (input : SerializedInput) (original : TimelineDependency n)
    : Prop where
  id : input.id.text = (graph original.computation).identity
  owned : input.owned = ownedBy graph (graph current).identity current original
  reused : input.reused = original.reused
  overhead : input.overhead = original.overhead
  computeUncertain : input.computeUncertain = original.computeUncertain
  shared
    : ∃ parts, input.shared = some parts
        ∧ List.Forall₂ (StoredPart process graph) parts original.shared

/-- A stored node carries the evidence of a computation, the aliases and the provenance of its
owners among it.
-/
structure StoredNode (process : Process) (graph : Timeline n) (node : SerializedNode)
    (current : Fin n)
    : Prop where
  id : node.id.text = (graph current).identity
  clock : node.clock.text = computationClock process graph current
  timeOrigin : node.timeOrigin.map (·.value) = computationTimeOrigin process graph current
  interval : node.ends.interval = (graph current).toInterval
  spans
    : node.spans.map (fun spans => spans.map Endpoints.interval) = (graph current).spans
  priorMs : (node.priorMs.map (·.value)).getD 0 = (graph current).priorMs
  producer : node.producer.map SerializedProducer.restored = computationProducer graph current
  groups : node.groups.map (·.text) = computationGroups graph current
  incomplete : node.incomplete = (graph current).incomplete
  inputs
    : List.Forall₂ (StoredInput process graph current) node.inputs (graph current).inputs

theorem storedPart_of_parse {part : SerializedPart} {original : Fin n}
    (read : (record? (rawPart process graph original)).bind parsePart = some part)
    : StoredPart process graph part original := by
  rw [rawPart, record?, Option.bind_some, parsePart] at read
  obtain ⟨clock, readClock, later⟩ := Option.bind_eq_some_iff.mp read
  obtain ⟨ends, readEnds, same⟩ := Option.map_eq_some_iff.mp later
  obtain ⟨first, last⟩ := endpoints?_spec rfl rfl readEnds
  rw [← same]
  exact ⟨identity?_textValue readClock, interval_of_ends first last⟩

theorem storedInput_of_parse {current : Fin n} {input : SerializedInput}
    {original : TimelineDependency n}
    (read
      : (record? (rawInput process graph (graph current).identity current original)).bind
          parseInput
        = some input)
    : StoredInput process graph current input original := by
  rw [rawInput, record?, Option.bind_some, parseInput] at read
  obtain ⟨id, readID, afterID⟩ := Option.bind_eq_some_iff.mp read
  obtain ⟨owned, readOwned, afterOwned⟩ := Option.bind_eq_some_iff.mp afterID
  obtain ⟨reused, readReused, afterReused⟩ := Option.bind_eq_some_iff.mp afterOwned
  obtain ⟨overhead, readOverhead, afterOverhead⟩ := Option.bind_eq_some_iff.mp afterReused
  obtain ⟨uncertain, readUncertain, afterUncertain⟩ := Option.bind_eq_some_iff.mp afterOverhead
  obtain ⟨shared, readShared, same⟩ := Option.map_eq_some_iff.mp afterUncertain
  obtain ⟨parts, given, each⟩ := records_array readShared
  rw [← same]
  exact
    { id := identity?_textValue readID
      owned := parseFlag_bool rfl readOwned
      reused := parseFlag_bool rfl readReused
      overhead := parseFlag_bool rfl readOverhead
      computeUncertain := parseFlag_bool rfl readUncertain
      shared := ⟨parts, given, each.imp fun _ _ part => storedPart_of_parse part⟩ }

theorem interval_of_parse {interval : Interval} {ends : Endpoints}
    (read : (record? interval.rawValue).bind endpoints? = some ends)
    : ends.interval = interval := by
  rw [Interval.rawValue, record?, Option.bind_some] at read
  obtain ⟨first, last⟩ := endpoints?_spec rfl rfl read
  exact interval_of_ends first last

theorem spans_of_parse {spans : Option (List Interval)} {result : Option (List Endpoints)}
    (read
      : records endpoints?
          (fieldValue (spans.map fun spans => .array (spans.map Interval.rawValue)))
        = some result)
    : result.map (fun spans => spans.map Endpoints.interval) = spans := by
  refine optional_fieldValue _ (fun _ => Value.noConfusion) (fun one found parsed => ?_) read
  have each := collectAll_eq_some_iff.mp parsed
  rw [List.forall₂_map_left_iff] at each
  clear parsed
  induction each with
  | nil => rfl
  | cons first _ ih => rw [List.map_cons, interval_of_parse first, ih]

theorem producer_of_parse {producer : Option ComputationProducer}
    {result : Option SerializedProducer}
    (read
      : Value.optional (fun value => (record? value).bind parseProducer)
          (fieldValue (producer.map ComputationProducer.rawValue))
        = some result)
    : result.map SerializedProducer.restored = producer := by
  refine optional_fieldValue _ (fun _ => Value.noConfusion) (fun one found parsed => ?_) read
  rw [ComputationProducer.rawValue, record?, Option.bind_some, parseProducer] at parsed
  obtain ⟨source, readSource, afterSource⟩ := Option.bind_eq_some_iff.mp parsed
  obtain ⟨mode, readMode, afterMode⟩ := Option.bind_eq_some_iff.mp afterSource
  obtain ⟨id, readID, same⟩ := Option.map_eq_some_iff.mp afterMode
  have modes : mode.map (·.text) = one.mode :=
    optional_fieldValue _ (fun _ => Value.noConfusion) (fun _ _ => identity?_textValue) readMode
  have ids : id.map (·.text) = one.id :=
    optional_fieldValue _ (fun _ => Value.noConfusion) (fun _ _ => identity?_textValue) readID
  rw [← same, SerializedProducer.restored, identity?_textValue readSource, modes, ids]

theorem priorMs_of_parse {prior : ℚ} {result : Option Duration}
    (read
      : Value.optional duration? (if prior = 0 then .undefined else numberValue prior)
        = some result)
    : (result.map (·.value)).getD 0 = prior := by
  split at read
  next zero =>
    obtain rfl := Option.some.inj read
    exact zero.symm
  next =>
    obtain ⟨found, accepted, same⟩ := Option.map_eq_some_iff.mp read
    rw [← same, Option.map_some, Option.getD_some, duration?_numberValue accepted]

theorem groups_of_parse {groups : List Identity} (distinct : groups.Nodup)
    {result : { groups : List Name // groups.Nodup }}
    (read : parseAliases (.array (groups.map textValue)) = some result)
    : result.1.map (·.text) = groups := by
  obtain ⟨names, _, parsed, same⟩ := Option.pmap_eq_some_iff.mp read
  obtain ⟨listed, collected, inserted⟩ := Option.map_eq_some_iff.mp parsed
  have texts := collectAll_textValue collected
  have once : ([] ++ listed).Nodup := by
    rw [← texts] at distinct
    exact distinct.of_map _
  have kept : names = listed := by
    rw [← inserted, InvertedIndex.insertMembers_of_nodup once, List.nil_append]
  rw [same, ← texts]
  exact congrArg (List.map (·.text)) kept

theorem incomplete_of_parse {fields : List (String × Value)} {given value : Bool}
    (held : field fields "incomplete" = if given then .bool true else .undefined)
    (read : parseFlag fields "incomplete" = some value)
    : value = given := by
  rw [parseFlag, held] at read
  cases given with
  | true => exact (Option.some.inj read).symm
  | false => exact (Option.some.inj read).symm

theorem nodup_computationGroups (graph : Timeline n) (computation : Fin n)
    : (computationGroups graph computation).Nodup := by
  rw [computationGroups]
  generalize ownerChain graph n computation = chain
  have kept (groups : List Identity) (distinct : groups.Nodup)
      : (chain.foldl
          (fun groups current =>
            InvertedIndex.insertMembers groups
              ((graph current).groups
                ++ ((graph current).owner.map fun owner => (graph owner).identity).toList))
          groups).Nodup := by
    induction chain generalizing groups with
    | nil => exact distinct
    | cons current rest ih => exact ih _ (InvertedIndex.nodup_insertMembers distinct _)
  exact kept [] List.nodup_nil

/-- The entry of an identity that names one computation. -/
structure EntryOf (graph : Timeline n) (id : Identity) (entry : SerialEntry n) : Prop where
  id : (graph entry.computation).identity = id
  groups : entry.groups = computationGroups graph entry.computation
  producer : entry.producer = (computationProducer graph entry.computation).map some

/-- A node parsed from the raw node of an entry is the stored node of its computation. -/
theorem storedNode_of_parse {id : Identity} {entry : SerialEntry n} {node : SerializedNode}
    (entryOf : EntryOf graph id entry)
    (read : (record? (rawNode process graph id entry)).bind parseNode = some node)
    : StoredNode process graph node entry.computation := by
  rw [rawNode, record?, Option.bind_some, parseNode] at read
  obtain ⟨name, readID, afterID⟩ := Option.bind_eq_some_iff.mp read
  obtain ⟨clock, readClock, afterClock⟩ := Option.bind_eq_some_iff.mp afterID
  obtain ⟨ends, readEnds, afterEnds⟩ := Option.bind_eq_some_iff.mp afterClock
  obtain ⟨prior, readPrior, afterPrior⟩ := Option.bind_eq_some_iff.mp afterEnds
  obtain ⟨origin, readOrigin, afterOrigin⟩ := Option.bind_eq_some_iff.mp afterPrior
  obtain ⟨incomplete, readIncomplete, afterIncomplete⟩ := Option.bind_eq_some_iff.mp afterOrigin
  obtain ⟨spans, readSpans, afterSpans⟩ := Option.bind_eq_some_iff.mp afterIncomplete
  obtain ⟨producer, readProducer, afterProducer⟩ := Option.bind_eq_some_iff.mp afterSpans
  obtain ⟨groups, readGroups, afterGroups⟩ := Option.bind_eq_some_iff.mp afterProducer
  obtain ⟨inputs, readInputs, assembled⟩ := Option.bind_eq_some_iff.mp afterGroups
  rw [assembleNode] at assembled
  split at assembled
  next =>
    obtain ⟨first, last⟩ := endpoints?_spec rfl rfl readEnds
    obtain ⟨listed, given, each⟩ := records_array readInputs
    have aliases : (entry.groups).Nodup := by
      rw [entryOf.groups]
      exact nodup_computationGroups graph entry.computation
    have provenance : entry.producer.join = computationProducer graph entry.computation := by
      rw [entryOf.producer]
      cases computationProducer graph entry.computation <;> rfl
    rw [← Option.some.inj assembled]
    refine
      { id := (identity?_textValue readID).trans entryOf.id.symm
        clock := identity?_textValue readClock
        timeOrigin :=
          optional_fieldValue _ (fun _ => Value.noConfusion) (fun _ _ => duration?_numberValue)
            readOrigin
        interval := interval_of_ends first last
        spans := spans_of_parse readSpans
        priorMs := priorMs_of_parse readPrior
        producer := (producer_of_parse readProducer).trans provenance
        groups := (groups_of_parse aliases readGroups).trans entryOf.groups
        incomplete := incomplete_of_parse rfl readIncomplete
        inputs := ?_ }
    rw [given]
    refine each.imp fun input original parsed => storedInput_of_parse ?_
    rw [entryOf.id]
    exact parsed
  next => cases assembled

end Stored

end SpeculativeAction.TaskTiming
