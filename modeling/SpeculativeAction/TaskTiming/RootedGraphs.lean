import SpeculativeAction.TaskTiming.NormalGraph

/-! Normalization accepts exactly rooted graphs without cycles, and lists the inputs of a node
before it.
-/

namespace SpeculativeAction.TaskTiming

open SpeculativeAction.Library

section Graphs

/-- The user is a node that lists the input. -/
def InputOf (nodes : List SerializedNode) (user input : Name) : Prop :=
  ∃ node ∈ nodes, node.id = user ∧ ∃ entry ∈ node.inputs, entry.id = input

/-- No input of a node has an owner but that node. -/
def OneOwner (nodes : List SerializedNode) : Prop :=
  ∀ left ∈ nodes, ∀ right ∈ nodes,
    ∀ first ∈ left.inputs, ∀ second ∈ right.inputs,
      first.owned = true → second.owned = true → first.id = second.id → left.id = right.id

/-- Distinct nodes that all belong to the computation of the root. -/
structure RootedDag (root : Name) (nodes : List SerializedNode) : Prop where
  distinct : (nodes.map (·.id)).Nodup
  rooted : root ∈ nodes.map (·.id)
  closed : ∀ user input, InputOf nodes user input → input ∈ nodes.map (·.id)
  reachable : ∀ node ∈ nodes, Relation.ReflTransGen (InputOf nodes) root node.id
  acyclic : Acyclic (InputOf nodes)
  owners : OneOwner nodes
  origins : OriginsAgree nodes

/-- Every input of a listed node is listed before it. -/
def InputsFirst (nodes : List SerializedNode) : Prop :=
  ∀ before node after, nodes = before ++ node :: after →
    ∀ input ∈ node.inputs, input.id ∈ before.map (·.id)

/-- What a value says before its nodes are validated together. -/
def Parsed (value : Value) (version : ℕ) (root : Name) (nodes : List SerializedNode) : Prop :=
  ∃ fields,
    Value.record? value = some fields
    ∧ version? (Value.field fields "version") = some version
    ∧ identity? (Value.field fields "root") = some root
    ∧ parseNodes (Value.field fields "nodes") = some nodes

variable {value : Value} {version : ℕ} {root : Name} {nodes others : List SerializedNode}
variable {graph : SerializedTimelineComputation} {scan : Scan}

theorem normalizeTimelineComputation_eq_some
    : normalizeTimelineComputation value = some graph
      ↔ ∃ version root nodes scan,
          Parsed value version root nodes
          ∧ scanNodes nodes {} = some scan
          ∧ orderGraph version root scan.byID = some graph := by
  constructor
  · intro normalized
    unfold normalizeTimelineComputation at normalized
    obtain ⟨fields, record, afterFields⟩ := Option.bind_eq_some_iff.mp normalized
    obtain ⟨version, versioned, afterVersion⟩ := Option.bind_eq_some_iff.mp afterFields
    obtain ⟨root, rooted, afterRoot⟩ := Option.bind_eq_some_iff.mp afterVersion
    obtain ⟨nodes, listed, afterNodes⟩ := Option.bind_eq_some_iff.mp afterRoot
    obtain ⟨scan, scanned, ordered⟩ := Option.bind_eq_some_iff.mp afterNodes
    exact ⟨version, root, nodes, scan, ⟨fields, record, versioned, rooted, listed⟩, scanned, ordered⟩
  · intro accepted
    obtain ⟨version, root, nodes, scan, parsed, scanned, ordered⟩ := accepted
    obtain ⟨fields, record, versioned, rooted, listed⟩ := parsed
    rw [normalizeTimelineComputation, record, Option.bind_some, versioned, Option.bind_some, rooted,
      Option.bind_some, listed, Option.bind_some, scanned, Option.bind_some, ordered]

/-- The traversal follows the inputs of the nodes, where all of them are nodes. -/
theorem edge_iff_inputOf (holds : scan.Holds nodes)
    (closed : ∀ user input, InputOf nodes user input → scan.byID.has input = true)
    (user input : Name)
    : Edge (inputNodes scan.byID) user input ↔ InputOf nodes user input := by
  unfold Edge inputNodes
  cases stored : scan.byID.get? user with
  | none =>
      constructor
      · intro none_
        cases none_
      · intro listed
        obtain ⟨node, member, named, _⟩ := listed
        cases stored.symm.trans ((holds.byID user node).mpr ⟨member, named⟩)
  | some node =>
      have known := (holds.byID user node).mp stored
      simp only [List.mem_map, List.mem_reverse]
      constructor
      · intro found
        obtain ⟨entry, member, kept⟩ := found
        split at kept
        next => exact ⟨node, known.1, known.2, entry, member, Option.some.inj kept⟩
        next => cases kept
      · intro listed
        have target := closed user input listed
        obtain ⟨other, otherMember, named, entry, member, rfl⟩ := listed
        have same := stored.symm.trans ((holds.byID user other).mpr ⟨otherMember, named⟩)
        refine ⟨entry, Option.some.inj same ▸ member, ?_⟩
        rw [if_pos target]

theorem no_missing_input (holds : scan.Holds nodes)
    (closed : ∀ user input, InputOf nodes user input → scan.byID.has input = true) (id : Name)
    : none ∉ inputNodes scan.byID id := by
  unfold inputNodes
  cases stored : scan.byID.get? id with
  | none => exact List.not_mem_nil
  | some node =>
      have known := (holds.byID id node).mp stored
      intro missing
      obtain ⟨entry, member, kept⟩ := List.mem_map.mp missing
      split at kept
      next => cases kept
      next absent =>
        exact absent (closed id entry.id
          ⟨node, known.1, known.2, entry, List.mem_reverse.mp member, rfl⟩)

theorem mem_map_id_iff (holds : scan.Holds nodes) {id : Name}
    : id ∈ nodes.map (·.id) ↔ scan.byID.has id = true := by
  rw [OrderedMap.has_iff, OrderedMap.mem_keys_iff, List.mem_map]
  constructor
  · intro listed
    obtain ⟨node, member, named⟩ := listed
    exact ⟨node, (holds.byID id node).mpr ⟨member, named⟩⟩
  · intro stored
    obtain ⟨node, known⟩ := stored
    exact ⟨node, (holds.byID id node).mp known⟩

theorem inputOf_congr (same : ∀ node, node ∈ nodes ↔ node ∈ others)
    : InputOf nodes = InputOf others := by
  funext user input
  simp only [InputOf, same]

/-- A rooted graph stays one when its nodes are listed in another order. -/
theorem RootedDag.congr (dag : RootedDag root nodes) (distinct : (others.map (·.id)).Nodup)
    (same : ∀ node, node ∈ nodes ↔ node ∈ others)
    : RootedDag root others := by
  have ids (id : Name) : id ∈ nodes.map (·.id) ↔ id ∈ others.map (·.id) := by
    simp only [List.mem_map, same]
  have edges := inputOf_congr same
  refine ⟨distinct, (ids root).mp dag.rooted, ?_, ?_, edges ▸ dag.acyclic, ?_, ?_⟩
  · intro user input listed
    rw [← edges] at listed
    exact (ids input).mp (dag.closed user input listed)
  · intro node member
    rw [← edges]
    exact dag.reachable node ((same node).mpr member)
  · intro left leftMember right rightMember
    exact dag.owners left ((same left).mpr leftMember) right ((same right).mpr rightMember)
  · intro left leftMember right rightMember
    exact dag.origins left ((same left).mpr leftMember) right ((same right).mpr rightMember)

end Graphs

-- Accepted graphs

section Accepted

variable {value : Value} {version : ℕ} {root : Name} {nodes : List SerializedNode}
variable {graph : SerializedTimelineComputation} {scan : Scan}

/-- The identities of an ordered graph are an order of the traversal that lists all nodes. -/
theorem orderGraph_ordered (holds : scan.Holds nodes)
    (found : orderGraph version root scan.byID = some graph)
    : ∃ order,
        orderNodes scan.byID root = some order
        ∧ order = graph.nodes.map (·.id)
        ∧ graph.nodes = order.filterMap scan.byID.get? := by
  have spec := orderGraph_spec holds found
  unfold orderGraph at found
  split at found
  next => cases found
  next valid =>
    rw [Bool.or_eq_true, not_or, Bool.not_eq_true', Bool.not_eq_false] at valid
    obtain ⟨order, ordered, kept⟩ := Option.bind_eq_some_iff.mp found
    split at kept
    next =>
      obtain rfl := Option.some.inj kept
      refine ⟨order, ordered, (map_id_filterMap fun id member => ?_).symm, rfl⟩
      have inside := (orderNodes_spec ordered valid.1).2 id member
      obtain ⟨node, stored⟩ := OrderedMap.mem_keys_iff.mp (OrderedMap.has_iff.mp inside)
      exact ⟨node, stored, ((holds.byID id node).mp stored).2⟩
    next => cases kept

theorem orderNodes_ordered {order : List Name} (ordered : orderNodes scan.byID root = some order)
    : Ordered (inputNodes scan.byID) [root] order := by
  unfold orderNodes at ordered
  split at ordered
  next listed run =>
    obtain rfl := Option.some.inj ordered
    exact dependencyOrder_finished run
  next => cases ordered

/-- A graph that is returned is rooted, and its nodes follow their inputs. -/
theorem orderGraph_rootedDag (holds : scan.Holds nodes)
    (found : orderGraph version root scan.byID = some graph)
    : RootedDag root graph.nodes
      ∧ InputsFirst graph.nodes
      ∧ graph.nodes.getLast?.map (·.id) = some root := by
  have spec := orderGraph_spec holds found
  obtain ⟨order, traversed, ids, -⟩ := orderGraph_ordered holds found
  have ordered := orderNodes_ordered traversed
  have listed : (∃ node ∈ graph.nodes, node.id = root) := spec.root ▸ spec.normalized.rooted
  have closed (user input : Name) (edge : InputOf graph.nodes user input)
      : input ∈ graph.nodes.map (·.id) := by
    obtain ⟨node, member, -, entry, entryMember, rfl⟩ := edge
    obtain ⟨other, otherMember, named⟩ := spec.normalized.closed node member entry entryMember
    exact List.mem_map.mpr ⟨other, otherMember, named⟩
  have same := inputOf_congr spec.nodes
  have edges (user input : Name)
      : Edge (inputNodes scan.byID) user input ↔ InputOf graph.nodes user input := by
    rw [edge_iff_inputOf holds, same]
    intro user input edge
    rw [← same] at edge
    obtain ⟨node, member, named⟩ := List.mem_map.mp (closed user input edge)
    exact (mem_map_id_iff holds).mp
      (List.mem_map.mpr ⟨node, (spec.nodes node).mp member, named⟩)
  have relation : Edge (inputNodes scan.byID) = InputOf graph.nodes := by
    funext user input
    exact propext (edges user input)
  have first := ordered.first
  rw [relation, ids] at first
  have distinct := ordered.distinct
  rw [ids] at distinct
  have rooted : root ∈ graph.nodes.map (·.id) := List.mem_map.mpr listed
  have reachable (id : Name) (member : id ∈ graph.nodes.map (·.id))
      : Relation.ReflTransGen (InputOf graph.nodes) root id := by
    rw [← ids] at member
    obtain ⟨start, started, path⟩ := (ordered.listed id).mp member
    rw [List.mem_singleton.mp started, relation] at path
    exact path
  refine ⟨⟨distinct, rooted, closed, ?_, ?_, spec.normalized.owners, ?_⟩, ?_, ?_⟩
  · intro node member
    exact reachable node.id (List.mem_map.mpr ⟨node, member, rfl⟩)
  · exact first.acyclic distinct closed
  · intro left leftMember right rightMember
    exact holds.originsAgree left ((spec.nodes left).mp leftMember) right
      ((spec.nodes right).mp rightMember)
  · intro before node after equal input member
    refine first (before.map (·.id)) node.id (after.map (·.id)) (by rw [equal]; simp) input.id ?_
    exact ⟨node, by simp [equal], rfl, input, member, rfl⟩
  · rw [← List.getLast?_map]
    exact first.getLast?_of_root distinct rooted reachable

/-- A rooted graph is returned, whatever the order of its nodes. -/
theorem orderGraph_succeeds (holds : scan.Holds nodes) (dag : RootedDag root nodes)
    : ∃ graph, orderGraph version root scan.byID = some graph := by
  have closed (user input : Name) (edge : InputOf nodes user input)
      : scan.byID.has input = true :=
    (mem_map_id_iff holds).mp (dag.closed user input edge)
  have relation : Edge (inputNodes scan.byID) = InputOf nodes := by
    funext user input
    exact propext (edge_iff_inputOf holds closed user input)
  have stored (node : SerializedNode) : node ∈ scan.byID.values ↔ node ∈ nodes := by
    rw [OrderedMap.mem_values_iff]
    constructor
    · intro found
      obtain ⟨id, known⟩ := found
      exact ((holds.byID id node).mp known).1
    · intro member
      exact ⟨node.id, (holds.byID node.id node).mpr ⟨member, rfl⟩⟩
  have owners : OwnersValid scan.byID (listedInputs scan.byID) .empty := by
    refine ⟨?_, fun _ _ _ _ known => ?_, ?_⟩
    · intro pair member
      obtain ⟨node, held, named, listed⟩ := mem_listedInputs.mp member
      exact closed pair.1 pair.2.id ⟨node, (stored node).mp held, named, pair.2, listed, rfl⟩
    · rw [OrderedMap.get?_empty] at known
      cases known
    · intro left leftMember right rightMember leftOwns rightOwns target
      obtain ⟨first, firstHeld, firstNamed, firstListed⟩ := mem_listedInputs.mp leftMember
      obtain ⟨second, secondHeld, secondNamed, secondListed⟩ := mem_listedInputs.mp rightMember
      rw [← firstNamed, ← secondNamed]
      exact dag.owners first ((stored first).mp firstHeld) second ((stored second).mp secondHeld)
        left.2 firstListed right.2 secondListed leftOwns rightOwns target
  have bounded : BoundedBy (inputNodes scan.byID) scan.byID.keys := by
    refine ⟨fun _ _ ancestor edge => ?_⟩
    rw [relation] at edge
    exact OrderedMap.has_iff.mp (closed _ ancestor edge)
  have rooted := (mem_map_id_iff holds).mp dag.rooted
  have included : [root].Subset scan.byID.keys := by
    intro id member
    rw [List.mem_singleton.mp member]
    exact OrderedMap.has_iff.mp rooted
  obtain ⟨order, run⟩ := dependencyOrder_succeeds bounded included
    (fun node _ => no_missing_input holds closed node) (relation ▸ dag.acyclic)
  have ordered := dependencyOrder_finished run
  have traversed : orderNodes scan.byID root = some order := by rw [orderNodes, run]
  have perm : order.Perm scan.byID.keys := by
    refine (List.perm_ext_iff_of_nodup ordered.distinct scan.byID.keys_nodup).mpr fun id => ?_
    constructor
    · intro member
      exact OrderedMap.has_iff.mp ((orderNodes_spec traversed rooted).2 id member)
    · intro known
      obtain ⟨node, held⟩ := OrderedMap.mem_keys_iff.mp known
      obtain ⟨member, rfl⟩ := (holds.byID id node).mp held
      refine (ordered.listed node.id).mpr ⟨root, List.mem_singleton_self root, ?_⟩
      rw [relation]
      exact dag.reachable node member
  refine ⟨⟨version, root, order.filterMap scan.byID.get?⟩, ?_⟩
  rw [orderGraph, rooted, ownersValid_iff.mpr owners, traversed]
  simp [perm.length_eq]

/-- Normalization returns a graph exactly for rooted acyclic evidence with one owner a node and
one origin a clock. The graph it returns is such evidence, lists inputs before their users and
the root last, and is its own normal form.
-/
theorem normalizeTimelineComputation_rootedDag (value : Value)
    : ((∃ graph, normalizeTimelineComputation value = some graph)
        ↔ ∃ version root nodes, Parsed value version root nodes ∧ RootedDag root nodes)
      ∧ ∀ graph, normalizeTimelineComputation value = some graph →
          RootedDag graph.root graph.nodes
          ∧ InputsFirst graph.nodes
          ∧ graph.nodes.getLast?.map (·.id) = some graph.root
          ∧ normalizeTimelineComputation graph.toValue = some graph := by
  refine ⟨⟨?_, ?_⟩, ?_⟩
  · intro accepted
    obtain ⟨graph, normalized⟩ := accepted
    obtain ⟨version, root, nodes, scan, parsed, scanned, found⟩ :=
      normalizeTimelineComputation_eq_some.mp normalized
    have holds : scan.Holds nodes := Scan.holds_empty.scanNodes scanned
    have distinct : (nodes.map (·.id)).Nodup :=
      scanNodes_valid Scan.holds_empty List.nodup_nil scanned
    exact ⟨version, root, nodes, parsed, (orderGraph_rootedDag holds found).1.congr distinct
      (orderGraph_spec holds found).nodes⟩
  · intro evidence
    obtain ⟨version, root, nodes, parsed, dag⟩ := evidence
    obtain ⟨scan, scanned⟩ := scanNodes_succeeds Scan.holds_empty dag.distinct dag.origins
    have found : ∃ graph, orderGraph version root scan.byID = some graph :=
      orderGraph_succeeds (Scan.holds_empty.scanNodes scanned) dag
    obtain ⟨graph, found⟩ := found
    exact ⟨graph, normalizeTimelineComputation_eq_some.mpr
      ⟨version, root, nodes, scan, parsed, scanned, found⟩⟩
  · intro graph normalized
    obtain ⟨version, root, nodes, scan, -, scanned, found⟩ :=
      normalizeTimelineComputation_eq_some.mp normalized
    have holds : scan.Holds nodes := Scan.holds_empty.scanNodes scanned
    obtain ⟨dag, first, last⟩ := orderGraph_rootedDag holds found
    rw [(orderGraph_spec holds found).root]
    exact ⟨dag, first, last, normalizeTimelineComputation_again normalized⟩

/-- Two nodes as they may be stored, the user before its input. -/
def storedGraph : Value :=
  let time (value : ℕ) : Value := .number (.finite (Rat.ofInt (Int.ofNat value)))
  .object
    [("version", time 1),
      ("root", .string "check"),
      ("nodes",
        .array
          [.object
            [("id", .string "check"), ("clock", .string "process"), ("startedAt", time 4),
              ("completedAt", time 6),
              ("inputs", .array [.object [("id", .string "parse"), ("owned", .bool true)]])],
            .object
              [("id", .string "parse"), ("clock", .string "process"), ("startedAt", time 0),
                ("completedAt", time 4)]])]

/-- The stored nodes are accepted and listed the other way around. -/
theorem normalizeTimelineComputation_storedGraph
    : ∃ graph,
        normalizeTimelineComputation storedGraph = some graph
        ∧ RootedDag graph.root graph.nodes
        ∧ InputsFirst graph.nodes
        ∧ graph.nodes.getLast?.map (·.id) = some graph.root
        ∧ normalizeTimelineComputation graph.toValue = some graph := by
  have accepted : (normalizeTimelineComputation storedGraph).isSome = true := by decide +kernel
  obtain ⟨graph, normalized⟩ := Option.isSome_iff_exists.mp accepted
  exact ⟨graph, normalized,
    (normalizeTimelineComputation_rootedDag storedGraph).2 graph normalized⟩

end Accepted

end SpeculativeAction.TaskTiming
