import SpeculativeAction.TaskTiming.TimelineComputation

/-! What a normalized graph is, and that normalizing one again returns it: validation does not
depend on the order in which the nodes are listed.
-/

namespace SpeculativeAction.TaskTiming

open SpeculativeAction.Library

-- Scanning nodes

section Scanning

/-- Nodes of one clock that name its origin name the same one. -/
def OriginsAgree (nodes : List SerializedNode) : Prop :=
  ∀ left ∈ nodes, ∀ right ∈ nodes, left.clock = right.clock →
    ∀ first second, left.timeOrigin = some first → right.timeOrigin = some second →
      first = second

/-- The tables of a scan hold exactly what the scanned nodes say. -/
structure Scan.Holds (scan : Scan) (nodes : List SerializedNode) : Prop where
  byID : ∀ id node, scan.byID.get? id = some node ↔ node ∈ nodes ∧ node.id = id
  origins
    : ∀ clock origin,
        scan.origins.get? clock = some origin
          ↔ ∃ node ∈ nodes, node.clock = clock ∧ node.timeOrigin = some origin

variable {scan final : Scan} {seen rest nodes : List SerializedNode} {node : SerializedNode}

theorem Scan.holds_empty : Scan.Holds {} [] where
  byID _ _ := by simp
  origins _ _ := by simp

/-- One more node keeps the tables right where it is new and its origin agrees. -/
theorem Scan.Holds.add (holds : scan.Holds seen) (fresh : scan.byID.has node.id = false)
    (agrees : scan.agrees node = true)
    : (scan.add node).Holds (seen ++ [node]) where
  byID id other := by
    rw [Scan.add, OrderedMap.get?_set]
    split
    next same =>
      subst same
      constructor
      · intro found
        rw [Option.some.inj found]
        exact ⟨by simp, rfl⟩
      · intro listed
        rcases List.mem_append.mp listed.1 with before | now
        · have known := (holds.byID _ other).mpr ⟨before, listed.2⟩
          rw [OrderedMap.has_eq_false_iff] at fresh
          exact absurd (OrderedMap.mem_keys_iff.mpr ⟨other, known⟩) fresh
        · rw [List.mem_singleton.mp now]
    next different =>
      rw [holds.byID, List.mem_append, List.mem_singleton]
      constructor
      · exact fun listed => ⟨Or.inl listed.1, listed.2⟩
      · intro listed
        rcases listed.1 with before | now
        · exact ⟨before, listed.2⟩
        · exact absurd (now ▸ listed.2.symm) different
  origins clock origin := by
    have grown
        : (∃ other ∈ seen ++ [node], other.clock = clock ∧ other.timeOrigin = some origin)
          ↔ (∃ other ∈ seen, other.clock = clock ∧ other.timeOrigin = some origin)
            ∨ node.clock = clock ∧ node.timeOrigin = some origin := by
      simp only [List.mem_append, List.mem_singleton, or_and_right, exists_or, exists_eq_left]
    rw [grown, ← holds.origins, Scan.add]
    cases named : node.timeOrigin with
    | none => simp
    | some own =>
        simp only [OrderedMap.get?_set, Option.some.injEq]
        unfold Scan.agrees at agrees
        rw [named] at agrees
        split
        next same =>
          subst same
          constructor
          · exact fun equal => Or.inr ⟨rfl, Option.some.inj equal⟩
          · intro either
            rcases either with known | equal
            · rw [known] at agrees
              exact congrArg some (of_decide_eq_true agrees).symm
            · exact congrArg some equal.2
        next different =>
          constructor
          · exact Or.inl
          · intro either
            rcases either with known | equal
            · exact known
            · exact absurd equal.1.symm different

/-- A scan fills the tables with all the nodes, by induction over them. -/
theorem Scan.Holds.scanNodes (holds : scan.Holds seen) (scanned : scanNodes rest scan = some final)
    : final.Holds (seen ++ rest) := by
  induction rest generalizing scan seen with
  | nil =>
      obtain rfl := Option.some.inj scanned
      rwa [List.append_nil]
  | cons node rest ih =>
      rw [TaskTiming.scanNodes] at scanned
      split at scanned
      · cases scanned
      next valid =>
        rw [Bool.or_eq_true, not_or, Bool.not_eq_true, Bool.not_eq_true', Bool.not_eq_false]
          at valid
        rw [List.append_cons]
        exact ih (holds.add valid.1 valid.2) scanned

/-- Scanned nodes have distinct identities and agreeing origins. -/
theorem scanNodes_valid (holds : scan.Holds seen) (distinct : (seen.map (·.id)).Nodup)
    (scanned : scanNodes rest scan = some final)
    : ((seen ++ rest).map (·.id)).Nodup := by
  induction rest generalizing scan seen with
  | nil => rwa [List.append_nil]
  | cons node rest ih =>
      rw [scanNodes] at scanned
      split at scanned
      · cases scanned
      next valid =>
        rw [Bool.or_eq_true, not_or, Bool.not_eq_true, Bool.not_eq_true', Bool.not_eq_false]
          at valid
        rw [List.append_cons]
        refine ih (holds.add valid.1 valid.2) ?_ scanned
        rw [List.map_append, List.map_singleton]
        refine List.nodup_append.mpr ⟨distinct, List.nodup_singleton _, ?_⟩
        intro id before other now same
        obtain ⟨known, listed, named⟩ := List.mem_map.mp before
        have stored := (holds.byID id known).mpr ⟨listed, named⟩
        rw [OrderedMap.has_eq_false_iff] at valid
        refine valid.1 (OrderedMap.mem_keys_iff.mpr ⟨known, ?_⟩)
        rw [← List.mem_singleton.mp now, ← same, stored]

theorem Scan.Holds.originsAgree (holds : scan.Holds nodes) : OriginsAgree nodes := by
  intro left leftListed right rightListed clocks first second named named'
  have one := (holds.origins left.clock first).mpr ⟨left, leftListed, rfl, named⟩
  have two := (holds.origins left.clock second).mpr ⟨right, rightListed, clocks.symm, named'⟩
  exact Option.some.inj (one.symm.trans two)

/-- Nodes with distinct identities and agreeing origins are scanned to the end. -/
theorem scanNodes_succeeds (holds : scan.Holds seen) (distinct : ((seen ++ rest).map (·.id)).Nodup)
    (agree : OriginsAgree (seen ++ rest))
    : ∃ final, scanNodes rest scan = some final := by
  induction rest generalizing scan seen with
  | nil => exact ⟨scan, rfl⟩
  | cons node rest ih =>
      have fresh : scan.byID.has node.id = false := by
        rw [OrderedMap.has_eq_false_iff]
        intro member
        obtain ⟨known, stored⟩ := OrderedMap.mem_keys_iff.mp member
        obtain ⟨listed, named⟩ := (holds.byID _ _).mp stored
        rw [List.map_append] at distinct
        exact List.disjoint_of_nodup_append distinct (List.mem_map.mpr ⟨known, listed, named⟩)
          (by simp)
      have agrees : scan.agrees node = true := by
        unfold Scan.agrees
        split
        next origin known named stored =>
          obtain ⟨other, listed, clock, said⟩ := (holds.origins _ _).mp stored
          exact decide_eq_true (agree other (by simp [listed]) node (by simp) clock known origin
            said named)
        next => rfl
      rw [scanNodes, fresh, agrees]
      rw [List.append_cons] at distinct agree
      exact ih (holds.add fresh agrees) distinct agree

end Scanning

-- Owners and order

section Ordering

variable {byID other : OrderedMap Name SerializedNode} {root : Name} {order : List Name}
  {input : SerializedInput} {rest : List (Name × SerializedInput)}
  {owned : OrderedMap Name Name}

/-- What the check of inputs and owners says, whatever the order of the inputs. -/
structure OwnersValid (byID : OrderedMap Name SerializedNode)
    (inputs : List (Name × SerializedInput)) (owned : OrderedMap Name Name)
    : Prop where
  present : ∀ pair ∈ inputs, byID.has pair.2.id = true
  before
    : ∀ pair ∈ inputs, pair.2.owned = true →
        ∀ owner, owned.get? pair.2.id = some owner → owner = pair.1
  unique
    : ∀ left ∈ inputs, ∀ right ∈ inputs, left.2.owned = true → right.2.owned = true →
        left.2.id = right.2.id → left.1 = right.1

theorem OwnersValid.cons {node : Name} (present : byID.has input.id = true)
    (before
      : input.owned = true → ∀ owner, owned.get? input.id = some owner → owner = node)
    (later
      : OwnersValid byID rest (if input.owned then owned.set input.id node else owned))
    : OwnersValid byID ((node, input) :: rest) owned where
  present pair member := by
    rcases List.mem_cons.mp member with same | inRest
    · exact same ▸ present
    · exact later.present pair inRest
  before pair member owns owner known := by
    rcases List.mem_cons.mp member with same | inRest
    · subst same
      exact before owns owner known
    · by_cases also : input.owned = true
      · by_cases target : pair.2.id = input.id
        · have set_ := later.before pair inRest owns node (by
            rw [if_pos also, OrderedMap.get?_set, if_pos target])
          rw [← set_]
          exact before also owner (target ▸ known)
        · exact later.before pair inRest owns owner (by
            rw [if_pos also, OrderedMap.get?_set, if_neg target, known])
      · exact later.before pair inRest owns owner (by rw [if_neg also, known])
  unique left leftMember right rightMember leftOwns rightOwns target := by
    rcases List.mem_cons.mp leftMember with leftSame | leftRest
    · rcases List.mem_cons.mp rightMember with rightSame | rightRest
      · rw [leftSame, rightSame]
      · subst leftSame
        exact later.before right rightRest rightOwns node (by
          rw [if_pos leftOwns, OrderedMap.get?_set, if_pos target.symm])
    · rcases List.mem_cons.mp rightMember with rightSame | rightRest
      · subst rightSame
        exact (later.before left leftRest leftOwns node (by
          rw [if_pos rightOwns, OrderedMap.get?_set, if_pos target])).symm
      · exact later.unique left leftRest right rightRest leftOwns rightOwns target

theorem OwnersValid.tail {node : Name} (valid : OwnersValid byID ((node, input) :: rest) owned)
    : OwnersValid byID rest (if input.owned then owned.set input.id node else owned) where
  present pair member := valid.present pair (List.mem_cons_of_mem _ member)
  before pair member owns owner known := by
    have listed : pair ∈ (node, input) :: rest := List.mem_cons_of_mem _ member
    by_cases also : input.owned = true
    · rw [if_pos also, OrderedMap.get?_set] at known
      split at known
      next target =>
        rw [← Option.some.inj known]
        exact valid.unique (node, input) (List.mem_cons_self ..) pair listed also owns target.symm
      next => exact valid.before pair listed owns owner known
    · rw [if_neg also] at known
      exact valid.before pair listed owns owner known
  unique left leftMember right rightMember :=
    valid.unique left (List.mem_cons_of_mem _ leftMember) right (List.mem_cons_of_mem _ rightMember)

theorem ownersValid_iff {inputs : List (Name × SerializedInput)}
    : ownersValid byID inputs owned = true ↔ OwnersValid byID inputs owned := by
  induction inputs generalizing owned with
  | nil => exact ⟨fun _ => ⟨by simp, by simp, by simp⟩, fun _ => rfl⟩
  | cons pair rest ih =>
      obtain ⟨node, input⟩ := pair
      constructor
      · intro checked
        rw [ownersValid] at checked
        split at checked
        · cases checked
        next known =>
          have present : byID.has input.id = true := by simpa using known
          split at checked
          next owns =>
            split at checked
            · cases checked
            next free =>
              refine .cons present ?_ ?_
              · intro _ owner stored
                simpa [stored] using free
              · rw [if_pos owns]
                exact ih.mp checked
          next borrows =>
            refine .cons present (fun owns => absurd owns borrows) ?_
            rw [if_neg borrows]
            exact ih.mp checked
      · intro valid
        have later := ih.mpr valid.tail
        have present := valid.present (node, input) (List.mem_cons_self ..)
        rw [ownersValid, present]
        by_cases owns : input.owned = true
        · rw [if_pos owns] at later
          have free : ((owned.get? input.id).any fun other => decide (other ≠ node)) = false := by
            rw [Option.any_eq_false]
            intro owner stored
            have same := valid.before (node, input) (List.mem_cons_self ..) owns owner stored
            exact decide_eq_false (not_not.mpr same)
          rw [if_neg (by simp), if_pos owns, free, if_neg Bool.false_ne_true]
          exact later
        · rw [if_neg owns] at later
          simp [owns, later]

theorem mem_listedInputs {id : Name}
    : (id, input) ∈ listedInputs byID ↔ ∃ node ∈ byID.values, node.id = id ∧ input ∈ node.inputs := by
  rw [listedInputs, List.mem_flatMap]
  constructor
  · intro found
    obtain ⟨node, stored, member⟩ := found
    obtain ⟨own, listed, same⟩ := List.mem_map.mp member
    obtain ⟨rfl, rfl⟩ := Prod.mk.inj same
    exact ⟨node, stored, rfl, listed⟩
  · intro found
    obtain ⟨node, stored, rfl, listed⟩ := found
    exact ⟨node, stored, List.mem_map.mpr ⟨input, listed, rfl⟩⟩

/-- The traversal lists nodes only, each once. -/
theorem orderNodes_spec (found : orderNodes byID root = some order) (rooted : byID.has root = true)
    : order.Nodup ∧ ∀ id ∈ order, byID.has id = true := by
  unfold orderNodes at found
  split at found
  next listed run =>
    obtain rfl := Option.some.inj found
    have ordered := dependencyOrder_finished run
    refine ⟨ordered.distinct, fun id member => ?_⟩
    obtain ⟨start, started, path⟩ := (ordered.listed id).mp member
    rw [List.mem_singleton.mp started] at path
    induction path with
    | refl => exact rooted
    | tail _ edge ih =>
        unfold Edge inputNodes at edge
        split at edge
        · obtain ⟨input, -, kept⟩ := List.mem_map.mp edge
          split at kept
          next present => exact Option.some.inj kept ▸ present
          next => cases kept
        · cases edge
  next => cases found

/-- Tables that read the same are traversed alike. -/
theorem orderNodes_congr (same : ∀ id, byID.get? id = other.get? id)
    : orderNodes byID root = orderNodes other root := by
  have keys : byID.keys.Perm other.keys := (OrderedMap.entries_perm_of_get? same).map Prod.fst
  have has (id : Name) : byID.has id = other.has id := by
    rw [OrderedMap.has, OrderedMap.has, decide_eq_decide, keys.mem_iff]
  have inputs : inputNodes byID = inputNodes other := by
    funext id
    simp only [inputNodes, same, has]
  have fuel
      : searchFuel byID.keys (inputNodes byID) = searchFuel other.keys (inputNodes other) := by
    rw [inputs, searchFuel, searchFuel, (keys.map _).sum_eq]
  rw [orderNodes, orderNodes, fuel, inputs]

end Ordering

-- Normalized graphs

section Normalized

variable {graph : SerializedTimelineComputation} {nodes : List SerializedNode} {scan : Scan}
variable {version : ℕ} {root : Name}

/-- A normalized graph: its nodes have distinct identities, and its inputs are nodes with one
owner at most.
-/
structure Normalized (graph : SerializedTimelineComputation) : Prop where
  distinct : (graph.nodes.map (·.id)).Nodup
  rooted : ∃ node ∈ graph.nodes, node.id = graph.root
  closed
    : ∀ node ∈ graph.nodes, ∀ input ∈ node.inputs, ∃ other ∈ graph.nodes, other.id = input.id
  owners
    : ∀ left ∈ graph.nodes, ∀ right ∈ graph.nodes,
        ∀ first ∈ left.inputs, ∀ second ∈ right.inputs,
          first.owned = true → second.owned = true → first.id = second.id → left.id = right.id

theorem mem_of_has (holds : scan.Holds nodes) {id : Name} (present : scan.byID.has id = true)
    : ∃ node ∈ nodes, node.id = id := by
  obtain ⟨node, stored⟩ := OrderedMap.mem_keys_iff.mp (OrderedMap.has_iff.mp present)
  exact ⟨node, (holds.byID id node).mp stored⟩

/-- Nodes looked up by their identities list those identities. -/
theorem map_id_filterMap {byID : OrderedMap Name SerializedNode} {order : List Name}
    (stored : ∀ id ∈ order, ∃ node, byID.get? id = some node ∧ node.id = id)
    : (order.filterMap byID.get?).map (·.id) = order := by
  induction order with
  | nil => rfl
  | cons id rest ih =>
      obtain ⟨node, found, named⟩ := stored id (List.mem_cons_self ..)
      rw [List.filterMap_cons_some found, List.map_cons, named,
        ih fun other member => stored other (List.mem_cons_of_mem _ member)]

/-- An ordered graph has the scanned nodes, in an order of their identities. -/
structure OrderedFrom (version : ℕ) (root : Name) (nodes : List SerializedNode)
    (graph : SerializedTimelineComputation)
    : Prop where
  version : graph.version = version
  root : graph.root = root
  nodes : ∀ node, node ∈ graph.nodes ↔ node ∈ nodes
  normalized : Normalized graph

theorem orderGraph_spec (holds : scan.Holds nodes)
    (found : orderGraph version root scan.byID = some graph)
    : OrderedFrom version root nodes graph := by
  unfold orderGraph at found
  split at found
  · cases found
  next valid =>
  rw [Bool.or_eq_true, not_or, Bool.not_eq_true', Bool.not_eq_true', Bool.not_eq_false,
    Bool.not_eq_false] at valid
  obtain ⟨rooted, checked⟩ := valid
  obtain ⟨order, ordered, kept⟩ := Option.bind_eq_some_iff.mp found
  split at kept
  next full =>
    obtain ⟨orderDistinct, inside⟩ := orderNodes_spec ordered rooted
    have perm : order.Perm scan.byID.keys :=
      (List.subperm_of_subset orderDistinct fun id member =>
        OrderedMap.has_iff.mp (inside id member)).perm_of_length_le full.ge
    rw [← Option.some.inj kept]
    have members (node : SerializedNode)
        : node ∈ order.filterMap scan.byID.get? ↔ node ∈ nodes := by
      rw [List.mem_filterMap]
      constructor
      · intro listed
        obtain ⟨id, -, stored⟩ := listed
        exact ((holds.byID id node).mp stored).1
      · intro listed
        have stored := (holds.byID node.id node).mpr ⟨listed, rfl⟩
        exact ⟨node.id, perm.mem_iff.mpr (OrderedMap.mem_keys_iff.mpr ⟨node, stored⟩), stored⟩
    have ids : (order.filterMap scan.byID.get?).map (·.id) = order := by
      refine map_id_filterMap fun id member => ?_
      obtain ⟨node, stored⟩ := OrderedMap.mem_keys_iff.mp (OrderedMap.has_iff.mp (inside id member))
      exact ⟨node, stored, ((holds.byID id node).mp stored).2⟩
    have owners := ownersValid_iff.mp checked
    have stored (node : SerializedNode) (listed : node ∈ order.filterMap scan.byID.get?)
        : node ∈ scan.byID.values := by
      obtain ⟨id, -, held⟩ := List.mem_filterMap.mp listed
      exact OrderedMap.mem_values_iff.mpr ⟨id, held⟩
    have pair {node : SerializedNode} {input : SerializedInput}
        (listed : node ∈ order.filterMap scan.byID.get?) (member : input ∈ node.inputs)
        : (node.id, input) ∈ listedInputs scan.byID :=
      mem_listedInputs.mpr ⟨node, stored node listed, rfl, member⟩
    refine ⟨rfl, rfl, members, ?_, ?_, ?_, ?_⟩
    · rw [ids]
      exact orderDistinct
    · obtain ⟨node, listed, named⟩ := mem_of_has holds rooted
      exact ⟨node, (members node).mpr listed, named⟩
    · intro node listed input member
      obtain ⟨target, known, named⟩ := mem_of_has holds (owners.present _ (pair listed member))
      exact ⟨target, (members target).mpr known, named⟩
    · intro left leftListed right rightListed first firstMember second secondMember
      exact owners.unique _ (pair leftListed firstMember) _ (pair rightListed secondMember)
  next => cases kept

/-- The graph of one scan is the graph of every scan of the same nodes. -/
theorem orderGraph_congr {other : Scan} {others : List SerializedNode} (holds : scan.Holds nodes)
    (otherHolds : other.Holds others) (same : ∀ node, node ∈ nodes ↔ node ∈ others)
    : orderGraph version root scan.byID = orderGraph version root other.byID := by
  have reads (id : Name) : scan.byID.get? id = other.byID.get? id := by
    ext node
    rw [holds.byID, otherHolds.byID, same]
  have perm := OrderedMap.entries_perm_of_get? reads
  have keys : scan.byID.keys.Perm other.byID.keys := perm.map Prod.fst
  have has (id : Name) : scan.byID.has id = other.byID.has id := by
    rw [OrderedMap.has, OrderedMap.has, decide_eq_decide, keys.mem_iff]
  have inputs (pair : Name × SerializedInput)
      : pair ∈ listedInputs scan.byID ↔ pair ∈ listedInputs other.byID := by
    obtain ⟨id, input⟩ := pair
    rw [mem_listedInputs, mem_listedInputs]
    simp only [OrderedMap.mem_values_iff, reads]
  have owners
      : ownersValid scan.byID (listedInputs scan.byID) .empty
        = ownersValid other.byID (listedInputs other.byID) .empty := by
    rw [Bool.eq_iff_iff, ownersValid_iff, ownersValid_iff]
    constructor
    · intro valid
      exact ⟨fun pair member => has _ ▸ valid.present pair ((inputs pair).mpr member),
        fun pair member => valid.before pair ((inputs pair).mpr member),
        fun left leftMember right rightMember =>
          valid.unique left ((inputs left).mpr leftMember) right ((inputs right).mpr rightMember)⟩
    · intro valid
      exact ⟨fun pair member => (has _).symm ▸ valid.present pair ((inputs pair).mp member),
        fun pair member => valid.before pair ((inputs pair).mp member),
        fun left leftMember right rightMember =>
          valid.unique left ((inputs left).mp leftMember) right ((inputs right).mp rightMember)⟩
  have lookups : scan.byID.get? = other.byID.get? := funext reads
  rw [orderGraph, orderGraph, owners, has, orderNodes_congr reads, lookups, keys.length_eq]

/-- Normalizing a normalized graph once more returns it. -/
theorem normalizeTimelineComputation_again {value : Value}
    (normalized : normalizeTimelineComputation value = some graph)
    : normalizeTimelineComputation graph.toValue = some graph := by
  unfold normalizeTimelineComputation at normalized
  obtain ⟨fields, -, afterFields⟩ := Option.bind_eq_some_iff.mp normalized
  obtain ⟨version, versioned, afterVersion⟩ := Option.bind_eq_some_iff.mp afterFields
  obtain ⟨root, -, afterRoot⟩ := Option.bind_eq_some_iff.mp afterVersion
  obtain ⟨nodes, -, afterNodes⟩ := Option.bind_eq_some_iff.mp afterRoot
  obtain ⟨scan, scanned, ordered⟩ := Option.bind_eq_some_iff.mp afterNodes
  have holds : scan.Holds nodes := Scan.holds_empty.scanNodes scanned
  have spec := orderGraph_spec holds ordered
  have agree : OriginsAgree graph.nodes := by
    intro left leftListed right rightListed
    exact holds.originsAgree left ((spec.nodes left).mp leftListed) right
      ((spec.nodes right).mp rightListed)
  obtain ⟨again, rescanned⟩ :=
    scanNodes_succeeds Scan.holds_empty spec.normalized.distinct agree
  have againHolds : again.Holds graph.nodes := Scan.holds_empty.scanNodes rescanned
  rw [normalizeTimelineComputation_toValue graph (spec.version ▸ versioned), rescanned,
    Option.bind_some, spec.version, spec.root,
    orderGraph_congr againHolds holds spec.nodes, ordered]

end Normalized

end SpeculativeAction.TaskTiming
