import SpeculativeAction.TaskTiming.Construction
import SpeculativeAction.TaskTiming.Mirroring
import SpeculativeAction.TaskTiming.StoredEvidence

/-! A serialized graph restores to computations that record the same timing. -/

namespace SpeculativeAction.TaskTiming

open SpeculativeAction.Library
open Value

-- Serialized graphs

section Serialized

variable {n : ℕ} {process : Process} {graph : Timeline n}
  {selected : OrderedMap Identity (SerialEntry n)}

/-- No two computations are known by one identity. -/
def Identified (graph : Timeline n) : Prop :=
  ∀ left right, (graph left).identity = (graph right).identity → left = right

def Gathered (graph : Timeline n) (selected : OrderedMap Identity (SerialEntry n)) : Prop :=
  selected.Forall (EntryOf graph)

/-- Merging a computation into the entry of its own identity leaves its evidence there. -/
theorem entryOf_mergeEntry (identified : Identified graph) (gathered : Gathered graph selected)
    (current : Fin n)
    : EntryOf graph (graph current).identity
        (mergeEntry graph (selected.get? (graph current).identity) current) := by
  cases found : selected.get? (graph current).identity with
  | none =>
      have distinct : ([] ++ computationGroups graph current).Nodup :=
        nodup_computationGroups graph current
      exact
        { id := rfl
          groups := InvertedIndex.insertMembers_of_nodup distinct
          producer := mergeProducers_none _ }
  | some entry =>
      have known := gathered _ entry found
      have same : entry.computation = current := identified _ _ known.id
      have groups := known.groups
      have producer := known.producer
      rw [same] at groups producer
      have chosen : (mergeEntry graph (some entry) current).computation = current := by
        simp [mergeEntry, same]
      refine
        { id := by rw [chosen]
          groups := ?_
          producer := ?_ }
      · rw [chosen]
        simp only [mergeEntry, Option.map_some, Option.getD_some, groups]
        exact InvertedIndex.insertMembers_of_subset fun _ member => member
      · rw [chosen]
        simp only [mergeEntry, Option.bind_some, producer]
        exact mergeProducers_self _

/-- The traversal gathers the evidence of each computation it visits. -/
theorem gathered_gather (identified : Identified graph) (pending visited : List (Fin n))
    (gathered : Gathered graph selected)
    : Gathered graph (gather graph pending visited selected) := by
  induction pending, visited, selected using gather.induct graph with
  | case1 visited selected =>
      rw [gather]
      exact gathered
  | case2 visited selected current rest seen ih =>
      rw [gather, if_pos seen]
      exact ih gathered
  | case3 visited selected current rest fresh ih =>
      rw [gather, if_neg fresh]
      exact ih (gathered.set (entryOf_mergeEntry identified gathered current))

/-- Every raw node is the node of a gathered entry. -/
theorem mem_rawNodes {remaining reachable : List Identity} {value : Value}
    (member : value ∈ rawNodes process graph selected remaining reachable)
    : ∃ id entry, selected.get? id = some entry ∧ value = rawNode process graph id entry := by
  induction remaining, reachable using rawNodes.induct graph selected with
  | case1 reachable =>
      rw [rawNodes] at member
      cases member
  | case2 reachable id rest seen ih =>
      rw [rawNodes, if_pos seen] at member
      exact ih member
  | case3 reachable id rest fresh missing ih =>
      rw [rawNodes, if_neg fresh] at member
      split at member
      · exact ih member
      next found =>
        rw [missing] at found
        cases found
  | case4 reachable id rest fresh entry known ih =>
      rw [rawNodes, if_neg fresh] at member
      split at member
      next found =>
        rw [known] at found
        cases found
      next found' found =>
        rw [known] at found
        obtain rfl := Option.some.inj found
        rcases List.mem_cons.mp member with same | later
        · exact ⟨id, entry, known, same⟩
        · exact ih later

/-- A serialized graph: normalized, with one computation's evidence in each node. -/
structure Serialized (process : Process) (graph : Timeline n) (root : Fin n)
    (stored : SerializedTimelineComputation)
    : Prop where
  normalized : Normalized stored
  root : stored.root.text = (graph root).identity
  nodes : ∀ node ∈ stored.nodes, ∃ current, StoredNode process graph node current
  again : normalizeTimelineComputation stored.toValue = some stored

theorem serialize_spec (identified : Identified graph) {root : Fin n}
    {stored : SerializedTimelineComputation} (written : serialize process graph root = some stored)
    : Serialized process graph root stored := by
  have again := normalizeTimelineComputation_again written
  unfold serialize normalizeTimelineComputation at written
  rw [record?, Option.bind_some] at written
  obtain ⟨version, -, afterVersion⟩ := Option.bind_eq_some_iff.mp written
  obtain ⟨name, readRoot, afterRoot⟩ := Option.bind_eq_some_iff.mp afterVersion
  obtain ⟨nodes, readNodes, afterNodes⟩ := Option.bind_eq_some_iff.mp afterRoot
  obtain ⟨scan, scanned, ordered⟩ := Option.bind_eq_some_iff.mp afterNodes
  have spec := orderGraph_spec (Scan.holds_empty.scanNodes scanned) ordered
  have gathered : Gathered graph (gather graph [root] [] .empty) :=
    gathered_gather identified [root] [] OrderedMap.Forall.empty
  refine ⟨spec.normalized, ?_, ?_, again⟩
  · rw [spec.root]
    exact identity?_textValue readRoot
  · intro node listed
    have member := (spec.nodes node).mp listed
    obtain ⟨value, among, read⟩ := exists_of_mem_collectAll readNodes member
    obtain ⟨id, entry, known, rfl⟩ := mem_rawNodes among
    exact ⟨entry.computation, storedNode_of_parse (gathered id entry known) read⟩

end Serialized

-- Owners

section Owners

variable {n : ℕ} {graph : Timeline n}

/-- More budget than there are later computations adds nothing to a chain of owners. -/
theorem ownerChain_more (constructed : Constructed graph) (fuel more : ℕ) (current : Fin n)
    (enough : n ≤ fuel + current)
    : ownerChain graph (fuel + more) current = ownerChain graph fuel current := by
  induction fuel generalizing current with
  | zero =>
      have bound := current.isLt
      omega
  | succ fuel ih =>
      rw [Nat.add_right_comm, ownerChain, ownerChain]
      congr 1
      cases owned : (graph current).owner with
      | none => rfl
      | some owner =>
          have later : (current : ℕ) < owner := (constructed.owner current owner owned).1
          exact ih owner (by omega)

/-- The chain of a computation is itself and its owner's chain. -/
theorem ownerChain_cons (constructed : Constructed graph) {current owner : Fin n}
    (owned : (graph current).owner = some owner)
    : ownerChain graph n current = current :: ownerChain graph n owner := by
  have later : (current : ℕ) < owner := (constructed.owner current owner owned).1
  obtain ⟨fuel, size⟩ : ∃ fuel, n = fuel + 1 := ⟨n - 1, by have := owner.isLt; omega⟩
  have shorter : ownerChain graph n owner = ownerChain graph fuel owner := by
    have more := ownerChain_more constructed fuel 1 owner (by omega)
    rwa [← size] at more
  have budget : ownerChain graph n current = ownerChain graph (fuel + 1) current := by rw [← size]
  rw [shorter, budget, ownerChain, owned]

theorem ownerChain_head (graph : Timeline n) (current : Fin n)
    : ∃ above, ownerChain graph n current = current :: above := by
  obtain ⟨fuel, size⟩ : ∃ fuel, n = fuel + 1 := ⟨n - 1, by have := current.isLt; omega⟩
  have budget : ownerChain graph n current = ownerChain graph (fuel + 1) current := by rw [← size]
  rw [budget, ownerChain]
  exact ⟨_, rfl⟩

theorem mem_ownerChain_self (graph : Timeline n) (current : Fin n)
    : current ∈ ownerChain graph n current := by
  obtain ⟨above, chain⟩ := ownerChain_head graph current
  rw [chain]
  exact List.mem_cons_self ..

/-- The aliases one computation contributes: its own and its owner's identity. -/
def aliasesOf (graph : Timeline n) (current : Fin n) : List Identity :=
  (graph current).groups ++ ((graph current).owner.map fun owner => (graph owner).identity).toList

theorem computationGroups_eq (graph : Timeline n) (computation : Fin n)
    : computationGroups graph computation
      = (ownerChain graph n computation).foldl
          (fun groups current => InvertedIndex.insertMembers groups (aliasesOf graph current))
          [] :=
  rfl

theorem mem_computationGroups {computation : Fin n} {name : Identity}
    : name ∈ computationGroups graph computation
      ↔ ∃ current ∈ ownerChain graph n computation, name ∈ aliasesOf graph current := by
  rw [computationGroups_eq]
  generalize ownerChain graph n computation = chain
  have among (groups : List Identity)
      : name ∈ chain.foldl
          (fun groups current => InvertedIndex.insertMembers groups (aliasesOf graph current)) groups
        ↔ name ∈ groups ∨ ∃ current ∈ chain, name ∈ aliasesOf graph current := by
    induction chain generalizing groups with
    | nil => simp
    | cons current rest ih =>
        rw [List.foldl_cons, ih, InvertedIndex.mem_insertMembers]
        simp only [List.mem_cons, exists_eq_or_imp]
        tauto
  exact (among []).trans (or_iff_right (List.not_mem_nil))

/-- An owner's aliases and its identity are aliases of what it owns. -/
theorem computationGroups_owner (constructed : Constructed graph) {current owner : Fin n}
    (owned : (graph current).owner = some owner)
    : (graph owner).identity ∈ computationGroups graph current
      ∧ ∀ name ∈ computationGroups graph owner, name ∈ computationGroups graph current := by
  constructor
  · refine mem_computationGroups.mpr ⟨current, mem_ownerChain_self graph current, ?_⟩
    simp [aliasesOf, owned]
  · intro name member
    obtain ⟨above, listed, contributed⟩ := mem_computationGroups.mp member
    refine mem_computationGroups.mpr ⟨above, ?_, contributed⟩
    rw [ownerChain_cons constructed owned]
    exact List.mem_cons_of_mem _ listed

/-- A computation without provenance has owners without provenance. -/
theorem computationProducer_owner (constructed : Constructed graph) {current owner : Fin n}
    (owned : (graph current).owner = some owner)
    (unknown : computationProducer graph current = none)
    : computationProducer graph owner = none := by
  rw [computationProducer, ownerChain_cons constructed owned, List.findSome?_cons] at unknown
  split at unknown
  · cases unknown
  · exact unknown

end Owners

-- The restored timeline mirrors the original

section Restored

variable {n : ℕ} {process : Process} {graph : Timeline n} {nodes : List SerializedNode}

/-- A restored node stands for the computation with its identity. -/
def StandsFor (graph : Timeline n) (nodes : List SerializedNode)
    (computation : Fin (restoredSize nodes)) (original : Fin n)
    : Prop :=
  ∃ index : Fin nodes.length,
    computation = Fin.castAdd _ index ∧ (nodes.get index).id.text = (graph original).identity

/-- What restoring needs to know of the nodes. -/
structure Restorable (process : Process) (graph : Timeline n) (nodes : List SerializedNode)
    : Prop where
  identified : Identified graph
  constructed : Constructed graph
  distinct : (nodes.map (·.id)).Nodup
  closed : ∀ node ∈ nodes, ∀ input ∈ node.inputs, ∃ other ∈ nodes, other.id = input.id
  stored : ∀ node ∈ nodes, ∃ current, StoredNode process graph node current

theorem Name.eq_of_text {left right : Name} (same : left.text = right.text) : left = right := by
  cases left
  cases right
  congr

@[simp] theorem restoredTimeline_castAdd (index : Fin nodes.length)
    : restoredTimeline nodes (Fin.castAdd _ index) = restoredNode nodes (nodes.get index) :=
  Fin.addCases_left index

@[simp] theorem restoredTimeline_natAdd (index : Fin (sharedPartsOf nodes).length)
    : restoredTimeline nodes (Fin.natAdd _ index)
      = restoredSpan nodes ((sharedPartsOf nodes).get index) :=
  Fin.addCases_right index

/-- The identity of a node is restored to a computation that has it. -/
theorem restoredIndex_of_mem {id : Name} (known : ∃ node ∈ nodes, node.id = id)
    : ∃ index : Fin nodes.length,
        restoredIndex nodes id = some (Fin.castAdd _ index) ∧ (nodes.get index).id = id := by
  obtain ⟨node, member, named⟩ := known
  cases found : nodes.findFinIdx? fun node => decide (node.id = id) with
  | none =>
      rw [List.findFinIdx?_eq_none_iff] at found
      have different := found node member
      simp [named] at different
  | some index =>
      have held := (List.findFinIdx?_eq_some_iff.mp found).1
      exact ⟨index, by rw [restoredIndex, found, Option.map_some], by simpa using held⟩

theorem restoredPart_of_mem {part : SerializedPart} (member : part ∈ sharedPartsOf nodes)
    : ∃ index : Fin (sharedPartsOf nodes).length,
        restoredPart nodes part = some (Fin.natAdd _ index)
          ∧ (sharedPartsOf nodes).get index = part := by
  cases found : (sharedPartsOf nodes).findFinIdx? fun other => decide (other = part) with
  | none =>
      rw [List.findFinIdx?_eq_none_iff] at found
      have different := found part member
      simp at different
  | some index =>
      have held := (List.findFinIdx?_eq_some_iff.mp found).1
      exact ⟨index, by rw [restoredPart, found, Option.map_some], by simpa using held⟩

/-- A restored part is read as the shared computation was. -/
theorem samePart_of_stored {part : SerializedPart} {original : Fin n}
    (member : part ∈ sharedPartsOf nodes) (stored : StoredPart process graph part original)
    : ∃ span, restoredPart nodes part = some span
        ∧ SamePart process (restoredTimeline nodes) graph span original := by
  obtain ⟨index, found, held⟩ := restoredPart_of_mem member
  refine ⟨_, found, ?_, ?_⟩
  · rw [computationClock, restoredTimeline_natAdd, held]
    exact stored.clock
  · rw [restoredTimeline_natAdd, held]
    exact congrArg Interval.toSpan stored.interval

namespace Restorable

variable (restorable : Restorable process graph nodes)
  {original : Fin n} {computation : Fin (restoredSize nodes)} {above : Fin (restoredSize nodes)}
include restorable

/-- The stored node of a restored computation is that of the computation it stands for. -/
theorem storedNode {index : Fin nodes.length}
    (named : (nodes.get index).id.text = (graph original).identity)
    : StoredNode process graph (nodes.get index) original := by
  obtain ⟨current, stored⟩ := restorable.stored _ (List.get_mem nodes index)
  obtain rfl : current = original :=
    restorable.identified _ _ (stored.id.symm.trans named)
  exact stored

theorem unique {other : Fin (restoredSize nodes)} {otherOriginal : Fin n}
    (first : StandsFor graph nodes computation original)
    (second : StandsFor graph nodes other otherOriginal)
    : computation = other ↔ original = otherOriginal := by
  obtain ⟨index, rfl, named⟩ := first
  obtain ⟨otherIndex, rfl, otherNamed⟩ := second
  constructor
  · intro same
    obtain rfl : index = otherIndex := Fin.castAdd_injective _ _ same
    exact restorable.identified _ _ (named.symm.trans otherNamed)
  · intro same
    have ids : (nodes.get index).id = (nodes.get otherIndex).id :=
      Name.eq_of_text (named.trans (same ▸ otherNamed.symm))
    have node : nodes.get index = nodes.get otherIndex :=
      List.inj_on_of_nodup_map restorable.distinct (List.get_mem nodes index)
        (List.get_mem nodes otherIndex) ids
    rw [(restorable.distinct.of_map _).get_inj_iff.mp node]

/-- An owner of a restored computation stands for the owner of the original. -/
theorem owner {index : Fin nodes.length}
    (named : (nodes.get index).id.text = (graph original).identity)
    (owned : (restoredTimeline nodes (Fin.castAdd _ index)).owner = some above)
    : ∃ owner, (graph original).owner = some owner ∧ StandsFor graph nodes above owner := by
  rw [restoredTimeline_castAdd] at owned
  obtain ⟨aboveIndex, found, rfl⟩ := Option.map_eq_some_iff.mp owned
  have owns := List.find?_some found
  obtain ⟨input, listed, flags⟩ := List.any_eq_true.mp owns
  rw [Bool.and_eq_true, decide_eq_true_eq] at flags
  obtain ⟨current, stored⟩ := restorable.stored _ (List.get_mem nodes aboveIndex)
  obtain ⟨source, sourceListed, input'⟩ := exists_of_forall₂ stored.inputs listed
  -- the stored flag says that the original's last owner is the computation of this node
  rw [input'.owned, ownedBy, Bool.and_eq_true, decide_eq_true_eq] at flags
  have target : source.computation = original := by
    refine restorable.identified _ _ ?_
    rw [← input'.id, flags.2, named]
  have owner := restorable.constructed.owned current source sourceListed flags.1.1
  rw [target] at owner flags
  obtain ⟨last, known⟩ := Option.ne_none_iff_exists'.mp owner
  rw [known, Option.getD_some] at flags
  obtain rfl : last = current := restorable.identified _ _ flags.1.2
  exact ⟨last, known, aboveIndex, rfl, stored.id⟩

section

variable (stands : StandsFor graph nodes computation original)

include stands

/-- Every computation above a restored one stands for one above the original, whose aliases
are among the original's and whose provenance the original has.
-/
theorem ownerChain {fuel : ℕ}
    (listed : above ∈ TaskTiming.ownerChain (restoredTimeline nodes) fuel computation)
    : ∃ owner,
        StandsFor graph nodes above owner
          ∧ (∀ name ∈ computationGroups graph owner, name ∈ computationGroups graph original)
          ∧ (computationProducer graph original = none →
              computationProducer graph owner = none) := by
  induction fuel generalizing computation original with
  | zero => cases listed
  | succ fuel ih =>
      rw [TaskTiming.ownerChain] at listed
      rcases List.mem_cons.mp listed with same | later
      · exact ⟨original, same ▸ stands, fun _ member => member, fun unknown => unknown⟩
      · cases owned : (restoredTimeline nodes computation).owner with
        | none =>
            rw [owned] at later
            cases later
        | some next =>
            rw [owned] at later
            obtain ⟨index, rfl, named⟩ := stands
            obtain ⟨owner, known, ownerStands⟩ := restorable.owner named owned
            obtain ⟨top, topStands, names, producers⟩ := ih ownerStands later
            obtain ⟨-, among⟩ := computationGroups_owner restorable.constructed known
            exact ⟨top, topStands, fun name member => among name (names name member),
              fun unknown =>
                producers (computationProducer_owner restorable.constructed known unknown)⟩

/-- What a restored computation contributes are aliases of the original. -/
theorem aliasesOf {name : Identity}
    (member : name ∈ TaskTiming.aliasesOf (restoredTimeline nodes) computation)
    : name ∈ computationGroups graph original := by
  obtain ⟨index, rfl, named⟩ := stands
  have stored := restorable.storedNode named
  rcases List.mem_append.mp member with own | above
  · rw [restoredTimeline_castAdd] at own
    rw [← stored.groups]
    exact own
  · cases owned : (restoredTimeline nodes (Fin.castAdd _ index)).owner with
    | none =>
        rw [owned] at above
        cases above
    | some next =>
        obtain ⟨owner, known, ownerIndex, rfl, ownerNamed⟩ := restorable.owner named owned
        have identity : name = (graph owner).identity := by
          rw [owned] at above
          rw [← ownerNamed]
          simpa [restoredNode] using above
        rw [identity]
        exact (computationGroups_owner restorable.constructed known).1

/-- A restored computation has the aliases of the original, in their order. -/
theorem groups
    : computationGroups (restoredTimeline nodes) computation = computationGroups graph original := by
  obtain ⟨index, rfl, named⟩ := stands
  have stored := restorable.storedNode named
  obtain ⟨above, chain⟩ := ownerChain_head (restoredTimeline nodes) (Fin.castAdd _ index)
  have distinct : ([] ++ computationGroups graph original).Nodup :=
    nodup_computationGroups graph original
  have first
      : InvertedIndex.insertMembers []
          (TaskTiming.aliasesOf (restoredTimeline nodes) (Fin.castAdd _ index))
        = computationGroups graph original := by
    have own
        : ((restoredTimeline nodes (Fin.castAdd _ index)).groups)
          = computationGroups graph original := by
      rw [restoredTimeline_castAdd, ← stored.groups]
      rfl
    rw [TaskTiming.aliasesOf, own, InvertedIndex.insertMembers_append,
      InvertedIndex.insertMembers_of_nodup distinct, List.nil_append]
    refine InvertedIndex.insertMembers_of_subset fun name member => ?_
    exact restorable.aliasesOf ⟨index, rfl, named⟩ (List.mem_append_right _ member)
  rw [computationGroups_eq, chain, List.foldl_cons, first]
  refine InvertedIndex.foldl_insertMembers_of_subset fun next listed name member => ?_
  obtain ⟨owner, ownerStands, among, -⟩ :=
    restorable.ownerChain ⟨index, rfl, named⟩ (chain ▸ List.mem_cons_of_mem _ listed)
  exact among name (restorable.aliasesOf ownerStands member)

theorem storedProducer
    : (restoredTimeline nodes computation).producer = computationProducer graph original := by
  obtain ⟨index, rfl, named⟩ := stands
  rw [restoredTimeline_castAdd, ← (restorable.storedNode named).producer]
  rfl

theorem producer
    : computationProducer (restoredTimeline nodes) computation
      = computationProducer graph original := by
  cases known : computationProducer graph original with
  | none =>
      rw [computationProducer, List.findSome?_eq_none_iff]
      intro next listed
      obtain ⟨owner, ownerStands, -, unknown⟩ := restorable.ownerChain stands listed
      rw [restorable.storedProducer ownerStands, unknown known]
  | some producer =>
      obtain ⟨above, chain⟩ := ownerChain_head (restoredTimeline nodes) computation
      rw [computationProducer, chain, List.findSome?_cons, restorable.storedProducer stands, known]

end

/-- A restored input is the original's, with the restored computation in its place. -/
theorem input {node : SerializedNode} {current : Fin n} (listed : node ∈ nodes)
    {input : SerializedInput} (member : input ∈ node.inputs) {original : TimelineDependency n}
    (stored : StoredInput process graph current input original)
    : ∃ dependency, restoredInput nodes input = some dependency
        ∧ SameInput process (restoredTimeline nodes) graph (StandsFor graph nodes) dependency
          original := by
  obtain ⟨index, found, named⟩ := restoredIndex_of_mem (restorable.closed node listed input member)
  obtain ⟨parts, given, each⟩ := stored.shared
  have among : ∀ part ∈ parts, part ∈ sharedPartsOf nodes := by
    intro part partListed
    refine List.mem_flatMap.mpr ⟨node, listed, List.mem_flatMap.mpr ⟨input, member, ?_⟩⟩
    rw [given]
    exact partListed
  have shared
      : List.Forall₂ (SamePart process (restoredTimeline nodes) graph)
          (parts.filterMap (restoredPart nodes)) original.shared :=
    forall₂_filterMap each fun part partListed _ part' =>
      samePart_of_stored (among part partListed) part'
  refine ⟨_, by rw [restoredInput, found, Option.map_some], ?_⟩
  exact
    { computation := ⟨index, rfl, by rw [named, stored.id]⟩
      reused := stored.reused
      overhead := stored.overhead
      computeUncertain := stored.computeUncertain
      shared := by
        rw [given]
        exact shared }

theorem sameEvidence (stands : StandsFor graph nodes computation original)
    : SameEvidence process (restoredTimeline nodes) graph (StandsFor graph nodes) computation
        original := by
  have groups := restorable.groups stands
  have producer := restorable.producer stands
  obtain ⟨index, rfl, named⟩ := stands
  have stored := restorable.storedNode named
  have clock
      : computationClock process (restoredTimeline nodes) (Fin.castAdd _ index)
        = computationClock process graph original := by
    rw [computationClock, restoredTimeline_castAdd]
    exact stored.clock
  refine
    { identity := ?_
      interval := ?_
      spans := ?_
      priorMs := ?_
      incomplete := ?_
      clock := clock
      timeOrigin := ?_
      producer := producer
      groups := groups
      inputs := ?_ }
  · rw [restoredTimeline_castAdd]
    exact named
  · rw [restoredTimeline_castAdd]
    exact stored.interval
  · rw [restoredTimeline_castAdd]
    exact stored.spans
  · rw [restoredTimeline_castAdd]
    exact stored.priorMs
  · rw [restoredTimeline_castAdd]
    exact stored.incomplete
  · rw [computationTimeOrigin, clock]
    by_cases own : computationClock process graph original = process.identityNamespace
    · rw [if_pos own, computationTimeOrigin, if_pos own]
    · rw [if_neg own, restoredTimeline_castAdd]
      exact stored.timeOrigin
  · rw [restoredTimeline_castAdd]
    exact forall₂_filterMap stored.inputs fun input member _ input' =>
      restorable.input (List.get_mem nodes index) member input'

theorem mirrors : Mirrors process (restoredTimeline nodes) graph (StandsFor graph nodes) where
  same _ _ stands := restorable.sameEvidence stands
  unique _ _ _ _ first second := restorable.unique first second

end Restorable

end Restored

-- Restored calls

section Calls

variable {n : ℕ}

/-- Whatever is serialized restores after a JSON round trip, and a call records the same timing
of the restored root as of the original.
-/
theorem restore_recordCall (process : Process) (graph : Timeline n)
    (constructed : Constructed graph) (identified : Identified graph) (root : Fin n)
    (stored : SerializedTimelineComputation) (written : serialize process graph root = some stored)
    : ∃ restored,
        (jsonRoundTrip stored.toValue).bind restore = some restored
          ∧ ∀ (timeline : TaskTimeline) (issuedAt : Number) (completedAt : Option Number)
              (reused : Bool),
              recordCall process restored.graph timeline
                  [{ computation := restored.root, reused := reused }] issuedAt completedAt
                = recordCall process graph timeline [{ computation := root, reused := reused }]
                    issuedAt completedAt := by
  have spec := serialize_spec identified written
  obtain ⟨index, found, named⟩ := restoredIndex_of_mem spec.normalized.rooted
  have restorable : Restorable process graph stored.nodes :=
    { identified := identified
      constructed := constructed
      distinct := spec.normalized.distinct
      closed := spec.normalized.closed
      stored := spec.nodes }
  refine
    ⟨{ size := restoredSize stored.nodes
       graph := restoredTimeline stored.nodes
       root := Fin.castAdd _ index }, ?_, ?_⟩
  · rw [stored.lossless, Option.bind_some, restore, spec.again, Option.bind_some, found]
    rfl
  · intro timeline issuedAt completedAt reused
    refine recordCall_mirrors restorable.mirrors timeline (.cons ?_ .nil) issuedAt completedAt
    exact
      { computation := ⟨index, rfl, by rw [named, spec.root]⟩
        reused := rfl
        overhead := rfl
        computeUncertain := rfl
        shared := .nil }

end Calls

-- A calculation that owns another one

section Owned

def ownedProcess : Process where
  identityNamespace := "process"
  timeOrigin := 0

theorem ownedParse_lasting : (0 : ℚ) ≤ 4 := by decide +kernel

theorem ownedCheck_lasting : (4 : ℚ) ≤ 6 := by decide +kernel

local instance neZeroTwo : NeZero 2 := ⟨two_ne_zero⟩

def ownedTimeline : Timeline 2 := ![
  {
    startedAt := 0
    completedAt := 4
    nonneg := zero_nonneg
    lasting := ownedParse_lasting
    owner := some 1
    identity := "parse"
    prior_nonneg := zero_nonneg
  },
  {
    startedAt := 4
    completedAt := 6
    nonneg := ownedParse_lasting
    lasting := ownedCheck_lasting
    inputs := [{ computation := 0, owned := true, shared := [0] }]
    producer := some { source := "plan", mode := some "ahead" }
    identity := "check"
    prior_nonneg := zero_nonneg
  }
]

/-- The first computation is constructed alone, the second one as its owner. -/
theorem ownedTimeline_built : Built ownedTimeline := by
  have parse : Built (Timeline.construct Fin.elim0 { ownedTimeline 0 with
      inputs := []
      owner := none }) :=
    .construct (.empty _) _
  have check := parse.construct { ownedTimeline 1 with
    inputs := [{ computation := 0, owned := true, shared := [0] }]
    owner := none }
  convert check using 1
  funext computation
  fin_cases computation <;> rfl

theorem ownedTimeline_constructed : Constructed ownedTimeline := ownedTimeline_built.constructed

theorem ownedTimeline_identified : Identified ownedTimeline := by
  unfold Identified
  decide

/-- What is gathered below the owner: both computations, with its provenance. -/
def ownedEntries : OrderedMap Identity (SerialEntry 2) :=
  (OrderedMap.empty.set "check" (mergeEntry ownedTimeline none 1)).set "parse"
    (mergeEntry ownedTimeline none 0)

theorem gather_ownedTimeline : gather ownedTimeline [1] [] .empty = ownedEntries := by
  have below : (ownedTimeline 1).inputs.map (·.computation) ++ [] = [0] := rfl
  have last : (ownedTimeline 0).inputs.map (·.computation) ++ [] = [] := rfl
  rw [gather, if_neg (by decide), below, gather, if_neg (by decide), last, gather]
  rfl

theorem rawNodes_ownedEntries
    : rawNodes ownedProcess ownedTimeline ownedEntries ["check"] []
      = [rawNode ownedProcess ownedTimeline "check" (mergeEntry ownedTimeline none 1),
          rawNode ownedProcess ownedTimeline "parse" (mergeEntry ownedTimeline none 0)] := by
  rw [rawNodes, if_neg (by decide)]
  split
  next missing => cases missing
  next first found =>
    obtain rfl : mergeEntry ownedTimeline none 1 = first := Option.some.inj found
    have below
        : ((ownedTimeline (mergeEntry ownedTimeline none 1).computation).inputs.map
            fun input => (ownedTimeline input.computation).identity).reverse ++ []
          = ["parse"] := rfl
    rw [below, rawNodes, if_neg (by decide)]
    congr 1
    split
    next missing => cases missing
    next second found =>
      obtain rfl : mergeEntry ownedTimeline none 0 = second := Option.some.inj found
      have last
          : ((ownedTimeline (mergeEntry ownedTimeline none 0).computation).inputs.map
              fun input => (ownedTimeline input.computation).identity).reverse ++ []
            = [] := rfl
      rw [last, rawNodes]

theorem serialize_ownedTimeline : (serialize ownedProcess ownedTimeline 1).isSome = true := by
  have named : (ownedTimeline 1).identity = "check" := rfl
  rw [serialize, named, gather_ownedTimeline, rawNodes_ownedEntries]
  decide +kernel

/-- The owner is serialized, and its restored copy records what it records. -/
theorem restore_recordCall_owned
    : ∃ stored restored,
        serialize ownedProcess ownedTimeline 1 = some stored
          ∧ (jsonRoundTrip stored.toValue).bind restore = some restored
          ∧ recordCall ownedProcess restored.graph {}
                [{ computation := restored.root, reused := true }] (.finite 5) (some (.finite 6))
            = recordCall ownedProcess ownedTimeline {} [{ computation := 1, reused := true }]
                (.finite 5) (some (.finite 6)) := by
  obtain ⟨stored, written⟩ := Option.isSome_iff_exists.mp serialize_ownedTimeline
  obtain ⟨restored, read, same⟩ :=
    restore_recordCall ownedProcess ownedTimeline ownedTimeline_constructed
      ownedTimeline_identified 1 stored written
  exact ⟨stored, restored, written, read, same {} (.finite 5) (some (.finite 6)) true⟩

end Owned

end SpeculativeAction.TaskTiming
