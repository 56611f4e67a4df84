import SpeculativeAction.TaskTiming.Model

/-! What a call consumed of the evidence, as a function of the items that were taken and not
of their order; and that asking for the same root again consumes nothing more.
-/

namespace SpeculativeAction.TaskTiming

open SpeculativeAction.Library

variable {n : ℕ} {graph : Timeline n}

section Steps

/-- Deal with one item: examine it, and visit its computation when the visit is new. -/
def Consumed.handle (graph : Timeline n) (state : Consumed n) (item : Pending n) : Consumed n :=
  match item.visit with
  | none => state.examine item
  | some visit =>
      if visit ∈ state.visited then state.examine item
      else (state.examine item).select graph visit

@[simp] theorem visited_examine (state : Consumed n) (item : Pending n)
    : (state.examine item).visited = state.visited := by
  unfold Consumed.examine
  split <;> rfl

@[simp] theorem selected_examine (state : Consumed n) (item : Pending n)
    : (state.examine item).selected = state.selected := by
  unfold Consumed.examine
  split <;> rfl

@[simp] theorem groups_examine (state : Consumed n) (item : Pending n)
    : (state.examine item).groups = state.groups := by
  unfold Consumed.examine
  split <;> rfl

@[simp] theorem complete_examine (state : Consumed n) (item : Pending n)
    : (state.examine item).complete = (state.complete && !item.input.computeUncertain) := by
  unfold Consumed.examine
  cases uncertain : item.input.computeUncertain <;> simp

@[simp] theorem incomplete_examine (state : Consumed n) (item : Pending n)
    : (state.examine item).incomplete
      = (state.incomplete || item.input.computeUncertain && item.reused) := by
  unfold Consumed.examine
  cases uncertain : item.input.computeUncertain <;> simp

@[simp] theorem visited_select (state : Consumed n) (visit : Fin n × Bool)
    : (state.select graph visit).visited = visit :: state.visited := rfl

@[simp] theorem complete_select (state : Consumed n) (visit : Fin n × Bool)
    : (state.select graph visit).complete = state.complete := rfl

@[simp] theorem incomplete_select (state : Consumed n) (visit : Fin n × Bool)
    : (state.select graph visit).incomplete = state.incomplete := rfl

/-- An item is visited by dealing with it, and what was visited stays so. -/
theorem mem_visited_handle {state : Consumed n} {item : Pending n} {visit : Fin n × Bool}
    : visit ∈ (state.handle graph item).visited
      ↔ item.visit = some visit ∨ visit ∈ state.visited := by
  unfold Consumed.handle
  split
  · rename_i none_
    simp [none_]
  · rename_i own some_
    rw [some_, Option.some.injEq]
    split
    · rename_i seen
      rw [visited_examine]
      refine ⟨.inr, fun either => either.elim (fun same => same ▸ seen) id⟩
    · rw [visited_select, visited_examine, List.mem_cons, eq_comm]

theorem complete_handle (state : Consumed n) (item : Pending n)
    : (state.handle graph item).complete = (state.complete && !item.input.computeUncertain) := by
  unfold Consumed.handle
  split
  · rw [complete_examine]
  · split
    · rw [complete_examine]
    · rw [complete_select, complete_examine]

theorem incomplete_handle (state : Consumed n) (item : Pending n)
    : (state.handle graph item).incomplete
      = (state.incomplete || item.input.computeUncertain && item.reused) := by
  unfold Consumed.handle
  split
  · rw [incomplete_examine]
  · split
    · rw [incomplete_examine]
    · rw [incomplete_select, incomplete_examine]

/-- Consuming is dealing with the items of the worklist in the order they are taken. -/
theorem consume_eq_foldl (graph : Timeline n) (pending : List (Pending n)) (state : Consumed n)
    : consume graph pending state
      = (Worklist.taken Pending.visit (inputsOf graph) pending state.visited).foldl
          (Consumed.handle graph) state := by
  induction pending, state using consume.induct graph with
  | case1 state => rw [consume, Worklist.taken, List.foldl_nil]
  | case2 state item rest none_ ih =>
      rw [consume, Worklist.taken, none_, List.foldl_cons, ih, visited_examine, Consumed.handle,
        none_]
  | case3 state item rest visit some_ seen ih =>
      rw [consume, Worklist.taken, some_]
      simp only [if_pos seen]
      rw [List.foldl_cons, ih, visited_examine, Consumed.handle, some_]
      simp only [if_pos seen]
  | case4 state item rest visit some_ fresh ih =>
      rw [consume, Worklist.taken, some_]
      simp only [if_neg fresh]
      rw [List.foldl_cons, ih, visited_select, visited_examine, Consumed.handle, some_]
      simp only [if_neg fresh]

end Steps

section Again

variable {state : Consumed n} {item : Pending n}

/-- Dealing with an item again would change nothing. -/
structure Settled (state : Consumed n) (item : Pending n) : Prop where
  examined : state.examine item = state
  visited : ∀ visit : Fin n × Bool, item.visit = some visit → visit ∈ state.visited

theorem examine_eq_self_iff
    : state.examine item = state
      ↔ (item.input.computeUncertain = true
        → state.complete = false ∧ (item.reused = true → state.incomplete = true)) := by
  unfold Consumed.examine
  cases uncertain : item.input.computeUncertain with
  | false => simp
  | true =>
      obtain ⟨selected, visited, groups, complete, incomplete⟩ := state
      cases complete <;> cases incomplete <;> simp

/-- Once dealt with, an item is settled. -/
theorem settled_handle (state : Consumed n) (item : Pending n)
    : Settled (state.handle graph item) item where
  examined := by
    rw [examine_eq_self_iff, complete_handle, incomplete_handle]
    intro uncertain
    rw [uncertain]
    refine ⟨by simp, fun reused => ?_⟩
    rw [reused, Bool.and_self, Bool.or_true]
  visited visit some_ := mem_visited_handle.mpr (.inl some_)

/-- A settled item stays settled. -/
theorem Settled.handle (settled : Settled state item) (other : Pending n)
    : Settled (state.handle graph other) item where
  examined := by
    have before := examine_eq_self_iff.mp settled.examined
    rw [examine_eq_self_iff, complete_handle, incomplete_handle]
    intro uncertain
    obtain ⟨complete, incomplete⟩ := before uncertain
    refine ⟨by rw [complete, Bool.false_and], fun reused => ?_⟩
    rw [incomplete reused, Bool.true_or]
  visited visit some_ := mem_visited_handle.mpr (.inr (settled.visited visit some_))

theorem Settled.consume (settled : Settled state item) (pending : List (Pending n))
    : Settled (consume graph pending state) item := by
  rw [consume_eq_foldl]
  exact List.foldlRecOn (motive := fun later => Settled later item) _ _ settled
    fun later before other _ => before.handle other

/-- The head of the worklist is dealt with first. -/
theorem settled_consume_cons (graph : Timeline n) (item : Pending n) (rest : List (Pending n))
    (state : Consumed n)
    : Settled (consume graph (item :: rest) state) item := by
  have handled : Settled (state.handle graph item) item := settled_handle state item
  unfold Consumed.handle at handled
  rw [TaskTiming.consume]
  split
  · rename_i none_
    rw [none_] at handled
    exact handled.consume rest
  · rename_i visit some_
    rw [some_] at handled
    dsimp only at handled
    split
    · rename_i seen
      rw [if_pos seen] at handled
      exact handled.consume rest
    · rename_i fresh
      rw [if_neg fresh] at handled
      exact handled.consume _

/-- A settled item is passed over. -/
theorem Settled.consume_cons (settled : Settled state item) (rest : List (Pending n))
    : TaskTiming.consume graph (item :: rest) state = TaskTiming.consume graph rest state := by
  rw [TaskTiming.consume]
  split
  · rw [settled.examined]
  · rename_i visit some_
    rw [if_pos (settled.visited visit some_), settled.examined]

/-- A worklist is consumed front part first. -/
theorem consume_append (graph : Timeline n) (first second : List (Pending n)) (state : Consumed n)
    : consume graph (first ++ second) state = consume graph second (consume graph first state) := by
  induction first, state using consume.induct graph with
  | case1 state => rw [List.nil_append, consume.eq_1 graph state]
  | case2 state item rest none_ ih =>
      rw [List.cons_append, consume, none_, consume.eq_2 graph state item rest, none_]
      exact ih
  | case3 state item rest visit some_ seen ih =>
      rw [List.cons_append, consume, consume.eq_2 graph state item rest, some_]
      simp only [if_pos seen]
      exact ih
  | case4 state item rest visit some_ fresh ih =>
      rw [List.cons_append, consume, consume.eq_2 graph state item rest, some_]
      simp only [if_neg fresh]
      rw [← List.append_assoc]
      exact ih

/-- A root that was asked for before adds nothing. -/
theorem consumedComputations_again (graph : Timeline n) (before : List (TimelineDependency n))
    (root : TimelineDependency n) (middle after : List (TimelineDependency n))
    : consumedComputations graph (before ++ root :: middle ++ root :: after)
      = consumedComputations graph (before ++ root :: middle ++ after) := by
  unfold consumedComputations
  simp only [List.map_append, List.map_cons, List.append_assoc, List.cons_append]
  rw [consume_append, consume_append, ← List.cons_append, ← List.cons_append, consume_append,
    consume_append]
  exact (settled_consume_cons graph _ _ _).consume_cons _

end Again

section Description

variable {state : Consumed n}

/-- The choice for an identity that names one computation. -/
def choice (graph : Timeline n) (visited : List (Fin n × Bool)) (computation : Fin n)
    : Selected n where
  computation
  own := decide ((computation, false) ∈ visited)
  reused := decide ((computation, true) ∈ visited)
  producer := (computationProducer graph computation).map some

theorem choice_congr {visited other : List (Fin n × Bool)}
    (same : ∀ visit : Fin n × Bool, visit ∈ visited ↔ visit ∈ other) (computation : Fin n)
    : choice graph visited computation = choice graph other computation := by
  unfold choice
  simp only [same]

/-- No two visited computations are known by one identity. -/
def Distinct (graph : Timeline n) (visited : List (Fin n × Bool)) : Prop :=
  ∀ left right : Fin n × Bool, left ∈ visited → right ∈ visited →
    (graph left.1).identity = (graph right.1).identity → left.1 = right.1

/-- What was visited decides what was selected and which identities were joined. -/
structure Described (graph : Timeline n) (state : Consumed n) : Prop where
  groups : state.groups.Connects fun left right =>
    ∃ visit ∈ state.visited,
      left = (graph visit.1).identity ∧ right ∈ computationGroups graph visit.1
  selected : ∀ visit : Fin n × Bool, visit ∈ state.visited →
    state.selected.get? (graph visit.1).identity = some (choice graph state.visited visit.1)
  named : ∀ key : Identity, key ∈ state.selected.keys →
    ∃ visit ∈ state.visited, (graph visit.1).identity = key

theorem described_initial (graph : Timeline n) : Described graph {} where
  groups := UnionFind.connects_empty.congr fun left right => by simp
  selected visit member := nomatch member
  named key member := nomatch member

theorem Described.examine (described : Described graph state) (item : Pending n)
    : Described graph (state.examine item) where
  groups := by
    rw [groups_examine, visited_examine]
    exact described.groups
  selected := by
    rw [selected_examine, visited_examine]
    exact described.selected
  named := by
    rw [selected_examine, visited_examine]
    exact described.named

@[simp] theorem preferredComputation_self (graph : Timeline n) (computation : Fin n)
    : preferredComputation graph (some computation) computation = computation := by
  unfold preferredComputation
  dsimp only
  split
  · rfl
  · split <;> rfl

@[simp] theorem conflict_self (value : Option String) : conflict value value = false := by
  cases value <;> simp [conflict]

/-- Provenance agrees with itself. -/
theorem mergeProducers_self (producer : Option ComputationProducer)
    : mergeProducers (producer.map some) producer = producer.map some := by
  cases producer with
  | none => rfl
  | some producer => simp [mergeProducers]

theorem mergeProducers_none (producer : Option ComputationProducer)
    : mergeProducers none producer = producer.map some := rfl

/-- Visiting a computation with an identity of its own. -/
theorem Described.select (described : Described graph state) (visit : Fin n × Bool)
    (distinct : Distinct graph (visit :: state.visited))
    : Described graph (state.select graph visit) where
  groups := by
    refine (described.groups.joinAll (graph visit.1).identity
      (computationGroups graph visit.1)).congr fun left right => ?_
    rw [visited_select, List.exists_mem_cons_iff, or_comm]
  selected := by
    intro other member
    rw [visited_select] at member ⊢
    simp only [Consumed.select]
    rw [OrderedMap.get?_set]
    split
    · rename_i same
      have computation : other.1 = visit.1 :=
        distinct other visit member List.mem_cons_self same
      rw [computation]
      by_cases before : ∃ flag, (visit.1, flag) ∈ state.visited
      · obtain ⟨flag, seen⟩ := before
        rw [described.selected _ seen]
        obtain ⟨current, reused⟩ := visit
        cases reused <;> simp [choice, mergeProducers_self]
      · have fresh : state.selected.get? (graph visit.1).identity = none := by
          rw [OrderedMap.get?_eq_none_iff]
          intro listed
          obtain ⟨earlier, seen, known⟩ := described.named _ listed
          have computation := distinct earlier visit (List.mem_cons_of_mem _ seen)
            List.mem_cons_self known
          exact before ⟨earlier.2, computation ▸ seen⟩
        rw [not_exists] at before
        have unowned := before false
        have unreused := before true
        rw [fresh]
        obtain ⟨current, reused⟩ := visit
        cases reused <;> simp_all [choice, mergeProducers_none, preferredComputation]
    · rename_i different
      rcases List.mem_cons.mp member with same | seen
      · exact absurd (congrArg (fun visit => (graph visit.1).identity) same) different
      · rw [described.selected other seen]
        have apart (flag : Bool) : (other.1, flag) ≠ visit := by
          intro same
          exact different (congrArg (fun visit => (graph visit.1).identity) same)
        simp [choice, apart]
  named := by
    intro key listed
    simp only [Consumed.select] at listed ⊢
    rcases OrderedMap.mem_keys_set.mp listed with same | before
    · exact ⟨visit, List.mem_cons_self, same.symm⟩
    · obtain ⟨earlier, seen, known⟩ := described.named key before
      exact ⟨earlier, List.mem_cons_of_mem _ seen, known⟩

theorem Described.handle (described : Described graph state) (item : Pending n)
    (distinct : Distinct graph (state.handle graph item).visited)
    : Described graph (state.handle graph item) := by
  unfold Consumed.handle at distinct ⊢
  split at distinct
  · exact described.examine item
  · split at distinct
    · rename_i seen
      rw [if_pos seen]
      exact described.examine item
    · rename_i fresh
      rw [if_neg fresh]
      exact (described.examine item).select _ distinct

/-- A run over many items visits at least what one of its steps has visited. -/
theorem mem_visited_foldl {items : List (Pending n)} {visit : Fin n × Bool}
    : visit ∈ (items.foldl (Consumed.handle graph) state).visited
      ↔ (∃ item ∈ items, item.visit = some visit) ∨ visit ∈ state.visited := by
  induction items generalizing state with
  | nil => simp
  | cons item rest ih =>
      rw [List.foldl_cons, ih, mem_visited_handle, List.exists_mem_cons_iff, or_assoc,
        or_left_comm]

/-- The description holds along a run, by induction over its items. -/
theorem Described.foldl {items : List (Pending n)} (described : Described graph state)
    (distinct : Distinct graph (items.foldl (Consumed.handle graph) state).visited)
    : Described graph (items.foldl (Consumed.handle graph) state) := by
  induction items generalizing state with
  | nil => exact described
  | cons item rest ih =>
      rw [List.foldl_cons] at distinct ⊢
      refine ih (described.handle item fun left right leftSeen rightSeen => ?_) distinct
      exact distinct left right (mem_visited_foldl.mpr (.inr leftSeen))
        (mem_visited_foldl.mpr (.inr rightSeen))

theorem complete_foldl (items : List (Pending n)) (state : Consumed n)
    : (items.foldl (Consumed.handle graph) state).complete
      = (state.complete && items.all fun item => !item.input.computeUncertain) := by
  induction items generalizing state with
  | nil => rw [List.foldl_nil, List.all_nil, Bool.and_true]
  | cons item rest ih =>
      rw [List.foldl_cons, ih, complete_handle, List.all_cons, Bool.and_assoc]

/-- The items a call takes, in their order. -/
def takenItems (graph : Timeline n) (roots : List (TimelineDependency n)) : List (Pending n) :=
  Worklist.taken Pending.visit (inputsOf graph)
    (roots.map fun input => { input, inheritedReuse := false }) []

theorem consumedComputations_eq (graph : Timeline n) (roots : List (TimelineDependency n))
    : consumedComputations graph roots
      = (takenItems graph roots).foldl (Consumed.handle graph) {} :=
  consume_eq_foldl graph _ _

/-- Two calls that consumed the same. -/
structure SameConsumption (first second : Consumed n) : Prop where
  complete : first.complete = second.complete
  selected : ∀ key : Identity, first.selected.get? key = second.selected.get? key
  groups : ∀ left right : Identity,
    first.groups.root left = first.groups.root right
    ↔ second.groups.root left = second.groups.root right

/-- A description decides the selection. -/
theorem Described.selected_congr {first second : Consumed n} (described : Described graph first)
    (again : Described graph second)
    (same : ∀ visit : Fin n × Bool, visit ∈ first.visited ↔ visit ∈ second.visited) (key : Identity)
    : first.selected.get? key = second.selected.get? key := by
  by_cases known : ∃ visit ∈ first.visited, (graph visit.1).identity = key
  · obtain ⟨visit, seen, rfl⟩ := known
    rw [described.selected visit seen, again.selected visit ((same visit).mp seen),
      choice_congr same]
  · have unlisted : key ∉ first.selected.keys := fun listed =>
      known (described.named key listed)
    have alsoUnlisted : key ∉ second.selected.keys := by
      intro listed
      obtain ⟨visit, seen, named⟩ := again.named key listed
      exact known ⟨visit, (same visit).mpr seen, named⟩
    rw [OrderedMap.get?_eq_none_iff.mpr unlisted, OrderedMap.get?_eq_none_iff.mpr alsoUnlisted]

/-- With identities that name one computation each, the order of the roots decides nothing. -/
theorem consumedComputations_congr {roots other : List (TimelineDependency n)}
    (same : ∀ root, root ∈ roots ↔ root ∈ other)
    (distinct : Distinct graph (consumedComputations graph roots).visited)
    : SameConsumption (consumedComputations graph roots) (consumedComputations graph other) := by
  have items (item : Pending n)
      : item ∈ takenItems graph roots ↔ item ∈ takenItems graph other := by
    refine Worklist.mem_taken_congr (fun pending => ?_) item
    simp only [List.mem_map, same]
  rw [consumedComputations_eq] at distinct ⊢
  rw [consumedComputations_eq graph other]
  have visited (visit : Fin n × Bool)
      : visit ∈ ((takenItems graph roots).foldl (Consumed.handle graph) {}).visited
        ↔ visit ∈ ((takenItems graph other).foldl (Consumed.handle graph) {}).visited := by
    simp only [mem_visited_foldl, items]
  have described := (described_initial graph).foldl distinct
  have again : Described graph ((takenItems graph other).foldl (Consumed.handle graph) {}) := by
    refine (described_initial graph).foldl fun left right leftSeen rightSeen => ?_
    exact distinct left right ((visited left).mpr leftSeen) ((visited right).mpr rightSeen)
  refine ⟨?_, described.selected_congr again visited, ?_⟩
  · rw [complete_foldl, complete_foldl, Bool.eq_iff_iff]
    simp only [Bool.and_eq_true, List.all_eq_true, items]
  · refine described.groups.same_root_iff (again.groups.congr fun left right => ?_)
    simp only [visited]

end Description

end SpeculativeAction.TaskTiming
