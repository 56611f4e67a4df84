import Mathlib.Algebra.Order.Ring.Nat
import Mathlib.Data.Set.Finite.Basic
import Mathlib.Logic.Function.Basic
import SpeculativeAction.Library.DependencyFirst

/-! The stable dependency-first traversal: an explicit-stack search with three marks.
Missing vertices and cycles reject the whole graph.
-/

namespace SpeculativeAction

open SpeculativeAction.Library

variable {Node : Type*}

-- The traversal

/-- One stack entry: a vertex to enter (possibly missing), or an entered vertex whose
dependencies have all been pushed above it.
-/
inductive Frame (Node : Type*) where
  | enter (node : Option Node)
  | finish (node : Node)

/-- The marks (`false` while unfinished, `true` when finished) and the vertices finished
so far.
-/
structure Search (Node : Type*) where
  states : Node → Option Bool
  ordered : List Node

/-- How a traversal ends; `exhausted` means only that the step budget was too small. -/
inductive Outcome (α : Type*) where
  | exhausted
  | rejected
  | finished (value : α)
deriving DecidableEq

/-- The inner loop: pop frames until the stack is empty, one unit of budget a pop. -/
def visit [DecidableEq Node] (dependencies : Node → List (Option Node))
    : ℕ → Search Node → List (Frame Node) → Outcome (Search Node)
  | _, search, [] => .finished search
  | 0, _, _ :: _ => .exhausted
  | _ + 1, _, .enter none :: _ => .rejected
  | fuel + 1, search, .finish node :: pending =>
      visit dependencies fuel
        {
          states := Function.update search.states node (some true)
          ordered := search.ordered ++ [node]
        }
        pending
  | fuel + 1, search, .enter (some node) :: pending =>
      match search.states node with
      | some true => visit dependencies fuel search pending
      | some false => .rejected
      | none =>
          visit dependencies fuel
            { search with states := Function.update search.states node (some false) }
            ((dependencies node).map .enter ++ .finish node :: pending)

/-- The outer loop over the roots, each searched from a fresh stack. -/
def visitRoots [DecidableEq Node] (dependencies : Node → List (Option Node)) (fuel : ℕ)
    : List Node → Search Node → Outcome (Search Node)
  | [], search => .finished search
  | root :: rest, search =>
      match visit dependencies fuel search [.enter (some root)] with
      | .finished next => visitRoots dependencies fuel rest next
      | other => other

def dependencyOrder [DecidableEq Node] (fuel : ℕ) (roots : List Node)
    (dependencies : Node → List (Option Node))
    : Outcome (List Node) :=
  match visitRoots dependencies fuel roots { states := fun _ => none, ordered := [] } with
  | .finished search => .finished search.ordered
  | .rejected => .rejected
  | .exhausted => .exhausted

/-- A budget that covers every search among the vertices of `bound`. -/
def searchFuel (bound : List Node) (dependencies : Node → List (Option Node)) : ℕ :=
  1 + (bound.map fun node => (dependencies node).length + 1).sum

/-- `Edge dependencies v w` reads "`v` depends on the present vertex `w`". -/
def Edge (dependencies : Node → List (Option Node)) (node ancestor : Node) : Prop :=
  some ancestor ∈ dependencies node

/-- The vertex is a root or an ancestor of one. -/
def Reached (dependencies : Node → List (Option Node)) (roots : List Node) (node : Node) : Prop :=
  ∃ root ∈ roots, Relation.ReflTransGen (Edge dependencies) root node

theorem Reached.edge {dependencies : Node → List (Option Node)} {roots : List Node}
    {node ancestor : Node} (reached : Reached dependencies roots node)
    (edge : Edge dependencies node ancestor)
    : Reached dependencies roots ancestor := by
  obtain ⟨root, member, path⟩ := reached
  exact ⟨root, member, path.tail edge⟩

-- The stack discipline

namespace Frame

def node? : Frame Node → Option Node
  | .enter node => node
  | .finish node => some node

def finishing? : Frame Node → Option Node
  | .enter _ => none
  | .finish node => some node

end Frame

/-- The unfinished vertices, innermost first. -/
def finishing (pending : List (Frame Node)) : List Node := pending.filterMap Frame.finishing?

/-- The unfinished vertex that pushed the frames right above it. -/
def owner (pending : List (Frame Node)) : Option Node := (finishing pending).head?

/-- Every frame names a dependency of the unfinished vertex below it, or a root. -/
def Nested (dependencies : Node → List (Option Node)) (roots : List Node)
    : List (Frame Node) → Prop
  | [] => True
  | frame :: rest =>
      (match owner rest with
        | some node => frame.node? ∈ dependencies node
        | none => ∃ root ∈ roots, frame.node? = some root)
      ∧ Nested dependencies roots rest

/-- Every dependency of an unfinished vertex is `known` or still above it on the stack. -/
def Covered (dependencies : Node → List (Option Node))
    : (Option Node → Prop) → List (Frame Node) → Prop
  | _, [] => True
  | known, .enter node :: rest => Covered dependencies (fun other => known other ∨ other = node) rest
  | known, .finish node :: rest =>
      (∀ dependency ∈ dependencies node, known dependency)
      ∧ Covered dependencies (fun other => known other ∨ other = some node) rest

/-- The state of a search between two pops. -/
structure Searching (dependencies : Node → List (Option Node)) (roots : List Node)
    (search : Search Node) (pending : List (Frame Node))
    : Prop where
  unfinished : ∀ node, search.states node = some false ↔ node ∈ finishing pending
  finished : ∀ node, search.states node = some true ↔ node ∈ search.ordered
  distinct : search.ordered.Nodup
  first : DependencyFirst (Edge dependencies) search.ordered
  present : ∀ node ∈ search.ordered, none ∉ dependencies node
  reached : ∀ node ∈ search.ordered, Reached dependencies roots node
  nested : Nested dependencies roots pending
  distinctFinishing : (finishing pending).Nodup
  covered : Covered dependencies (fun node => ∃ done ∈ search.ordered, node = some done) pending

section Discipline

variable {dependencies : Node → List (Option Node)} {roots : List Node}
  {known : Option Node → Prop} {pending : List (Frame Node)} {node : Node}
  {search : Search Node} {fuel : ℕ} {rest order bound : List Node}

@[simp] theorem finishing_enter (node : Option Node) (pending : List (Frame Node))
    : finishing (.enter node :: pending) = finishing pending := rfl

@[simp] theorem finishing_finish (node : Node) (pending : List (Frame Node))
    : finishing (.finish node :: pending) = node :: finishing pending := rfl

@[simp] theorem finishing_entered (nodes : List (Option Node)) (pending : List (Frame Node))
    : finishing (nodes.map .enter ++ pending) = finishing pending := by
  induction nodes with
  | nil => rfl
  | cons node rest ih => exact ih

theorem covered_enter {node : Option Node}
    : Covered dependencies known (.enter node :: pending)
      ↔ Covered dependencies (fun other => known other ∨ other = node) pending := Iff.rfl

/-- More known vertices cover no less. -/
theorem Covered.mono {more : Option Node → Prop} (covered : Covered dependencies known pending)
    (included : ∀ node, known node → more node)
    : Covered dependencies more pending := by
  induction pending generalizing known more with
  | nil => trivial
  | cons frame rest ih =>
      cases frame with
      | enter node => exact ih covered fun other => Or.imp_left (included other)
      | finish node =>
          exact ⟨fun dependency member => included _ (covered.1 dependency member),
            ih covered.2 fun other => Or.imp_left (included other)⟩

/-- Pushed entries are known to the frames below them. -/
theorem covered_entered {nodes : List (Option Node)}
    (covered : Covered dependencies (fun other => known other ∨ other ∈ nodes) pending)
    : Covered dependencies known (nodes.map .enter ++ pending) := by
  induction nodes generalizing known with
  | nil => exact covered.mono (by simp)
  | cons node rest ih =>
      apply ih
      exact covered.mono fun other => by simp only [List.mem_cons]; tauto

/-- Pushing dependencies of the owner keeps the nesting. -/
theorem nested_entered {nodes : List (Option Node)}
    (nested : Nested dependencies roots (.finish node :: pending))
    (included : ∀ dependency ∈ nodes, dependency ∈ dependencies node)
    : Nested dependencies roots (nodes.map .enter ++ .finish node :: pending) := by
  induction nodes with
  | nil => exact nested
  | cons head rest ih =>
      refine ⟨?_, ih fun dependency member => included dependency (by simp [member])⟩
      simpa [owner, Frame.node?] using included head (by simp)

/-- Frames on a nested stack name reached vertices. -/
theorem Nested.reached {frame : Frame Node} (nested : Nested dependencies roots pending)
    (member : frame ∈ pending) (named : frame.node? = some node)
    : Reached dependencies roots node := by
  induction pending generalizing frame node with
  | nil => cases member
  | cons head rest ih =>
      rcases List.mem_cons.mp member with rfl | later
      · obtain ⟨top, below⟩ := nested
        cases below_owner : owner rest with
        | none =>
            rw [below_owner] at top
            obtain ⟨root, isRoot, same⟩ := top
            obtain rfl := Option.some.inj (named.symm.trans same)
            exact ⟨_, isRoot, .refl⟩
        | some vertex =>
            rw [below_owner] at top
            have unfinished : vertex ∈ finishing rest := List.mem_of_mem_head? below_owner
            obtain ⟨inner, stacked, is⟩ := List.mem_filterMap.mp unfinished
            have innerNode : inner.node? = some vertex := by
              cases inner with
              | enter _ => cases is
              | finish _ => exact is
            exact (ih below stacked innerNode).edge (by simpa [Edge, named] using top)
      · exact ih nested.2 later named

/-- Every unfinished vertex below a frame depends on the frame's vertex: the unfinished
vertices form one path, by induction down the stack.
-/
theorem Nested.path {frame : Frame Node} {ancestor : Node}
    (nested : Nested dependencies roots (frame :: pending)) (named : frame.node? = some ancestor)
    (unfinished : node ∈ finishing pending)
    : Relation.TransGen (Edge dependencies) node ancestor := by
  induction pending generalizing frame ancestor with
  | nil => cases unfinished
  | cons head rest ih =>
      cases head with
      | enter skipped => exact ih ⟨nested.1, nested.2.2⟩ named unfinished
      | finish vertex =>
          have edge : Edge dependencies vertex ancestor := by
            simpa [owner, named, Edge] using nested.1
          rcases List.mem_cons.mp unfinished with rfl | deeper
          · exact .single edge
          · exact (ih nested.2 rfl deeper).tail edge

/-- The traversal starts with a fresh stack that holds one root. -/
theorem Searching.start {root : Node} (searching : Searching dependencies roots search [])
    (member : root ∈ roots)
    : Searching dependencies roots search [.enter (some root)] where
  unfinished := searching.unfinished
  finished := searching.finished
  distinct := searching.distinct
  first := searching.first
  present := searching.present
  reached := searching.reached
  nested := ⟨⟨root, member, rfl⟩, trivial⟩
  distinctFinishing := List.nodup_nil
  covered := trivial

/-- Popping a finished vertex again drops the frame alone. -/
theorem Searching.skip
    (searching : Searching dependencies roots search (.enter (some node) :: pending))
    (done : search.states node = some true)
    : Searching dependencies roots search pending :=
  {
    searching with
    nested := searching.nested.2
    covered := (covered_enter.mp searching.covered).mono fun _ known =>
      known.elim id fun same => ⟨node, (searching.finished node).mp done, same⟩
  }

theorem Searching.initial
    : Searching dependencies roots { states := fun _ => none, ordered := [] } [] where
  unfinished := by simp [finishing]
  finished := by simp
  distinct := List.nodup_nil
  first := DependencyFirst.nil
  present := by simp
  reached := by simp
  nested := trivial
  distinctFinishing := List.nodup_nil
  covered := trivial

variable [DecidableEq Node]

/-- Entering a new vertex pushes its dependencies above its own finish frame. -/
theorem Searching.enter
    (searching : Searching dependencies roots search (.enter (some node) :: pending))
    (unseen : search.states node = none)
    : Searching dependencies roots
        { search with states := Function.update search.states node (some false) }
        ((dependencies node).map .enter ++ .finish node :: pending) := by
  have notUnfinished : node ∉ finishing pending := fun member => by
    simp [(searching.unfinished node).mpr member] at unseen
  have notFinished : node ∉ search.ordered := fun member => by
    simp [(searching.finished node).mpr member] at unseen
  refine {
    searching with
    unfinished := ?_
    finished := ?_
    nested := nested_entered ⟨searching.nested.1, searching.nested.2⟩ fun _ member => member
    distinctFinishing := ?_
    covered := ?_
  }
  · intro other
    by_cases same : other = node
    · simp [same]
    · simpa [Function.update_of_ne same, same] using searching.unfinished other
  · intro other
    by_cases same : other = node
    · simp [same, notFinished]
    · simpa [Function.update_of_ne same] using searching.finished other
  · simpa [notUnfinished] using searching.distinctFinishing
  · apply covered_entered
    exact ⟨fun _ member => Or.inr member,
      (covered_enter.mp searching.covered).mono fun _ => Or.imp_left Or.inl⟩

/-- Finishing a vertex appends it after all of its dependencies. -/
theorem Searching.finish (searching : Searching dependencies roots search (.finish node :: pending))
    : Searching dependencies roots
        {
          states := Function.update search.states node (some true)
          ordered := search.ordered ++ [node]
        }
        pending := by
  obtain ⟨known, covered⟩ := searching.covered
  obtain ⟨notBelow, distinctBelow⟩
      : node ∉ finishing pending ∧ (finishing pending).Nodup :=
    List.nodup_cons.mp searching.distinctFinishing
  have open_ : search.states node = some false := (searching.unfinished node).mpr (by simp)
  have notFinished : node ∉ search.ordered := fun member => by
    simp [(searching.finished node).mpr member] at open_
  refine {
    unfinished := ?_
    finished := ?_
    distinct := ?_
    first := ?_
    present := ?_
    reached := ?_
    nested := searching.nested.2
    distinctFinishing := distinctBelow
    covered := ?_
  }
  · intro other
    by_cases same : other = node
    · simp [same, notBelow]
    · simpa [Function.update_of_ne same, same] using searching.unfinished other
  · intro other
    by_cases same : other = node
    · simp [same]
    · simpa [Function.update_of_ne same, same] using searching.finished other
  · refine List.nodup_append.mpr ⟨searching.distinct, by simp, fun other member last same => ?_⟩
    rw [List.mem_singleton.mp same]
    rintro rfl
    exact notFinished member
  · refine DependencyFirst.snoc_iff.mpr ⟨searching.first, fun ancestor edge => ?_⟩
    obtain ⟨done, member, same⟩ := known (some ancestor) edge
    exact Option.some.inj same ▸ member
  · intro other member missing
    rcases List.mem_append.mp member with old | new
    · exact searching.present other old missing
    · rw [List.mem_singleton.mp new] at missing
      obtain ⟨done, -, same⟩ := known none missing
      cases same
  · intro other member
    rcases List.mem_append.mp member with old | new
    · exact searching.reached other old
    · rw [List.mem_singleton.mp new]
      exact searching.nested.reached (List.mem_cons_self) rfl
  · refine covered.mono fun other => ?_
    rintro (⟨done, member, same⟩ | same)
    · exact ⟨done, List.mem_append_left _ member, same⟩
    · exact ⟨node, by simp, same⟩

-- What a finished or rejected traversal shows

/-- A finished inner loop has finished every vertex named on its stack. -/
theorem Searching.visit_finished {final : Search Node}
    (searching : Searching dependencies roots search pending)
    (run : visit dependencies fuel search pending = .finished final)
    : Searching dependencies roots final []
      ∧ search.ordered.Subset final.ordered
      ∧ ∀ frame ∈ pending, ∀ node, frame.node? = some node → node ∈ final.ordered := by
  induction fuel generalizing search pending with
  | zero =>
      cases pending with
      | nil => obtain rfl := Outcome.finished.inj run; exact ⟨searching, List.Subset.refl _, by simp⟩
      | cons frame rest => cases run
  | succ fuel ih =>
      rcases pending with - | ⟨⟨- | node⟩ | node, rest⟩
      · obtain rfl := Outcome.finished.inj run; exact ⟨searching, List.Subset.refl _, by simp⟩
      · cases run
      · rw [visit] at run
        split at run
        next done =>
          obtain ⟨ended, kept, rest⟩ := ih (searching.skip done) run
          refine ⟨ended, kept, fun frame member name named => ?_⟩
          rcases List.mem_cons.mp member with rfl | later
          · exact Option.some.inj named ▸ kept ((searching.finished node).mp done)
          · exact rest frame later name named
        · cases run
        next unseen =>
          obtain ⟨ended, kept, rest⟩ := ih (searching.enter unseen) run
          refine ⟨ended, kept, fun frame member name named => ?_⟩
          rcases List.mem_cons.mp member with rfl | later
          · exact rest (.finish node) (by simp) name named
          · exact rest frame (by simp [later]) name named
      · obtain ⟨ended, kept, rest⟩ := ih searching.finish run
        refine ⟨ended, fun other member => kept (by simp [member]), fun frame member name named => ?_⟩
        rcases List.mem_cons.mp member with rfl | later
        · exact Option.some.inj named ▸ kept (by simp)
        · exact rest frame later name named

/-- A rejected inner loop has met a missing dependency or a vertex below itself on the
stack, which the discipline turns into a cycle.
-/
theorem Searching.visit_rejected (searching : Searching dependencies roots search pending)
    (run : visit dependencies fuel search pending = .rejected)
    : ∃ node,
        Reached dependencies roots node
        ∧ (none ∈ dependencies node ∨ Relation.TransGen (Edge dependencies) node node) := by
  induction fuel generalizing search pending with
  | zero => cases pending <;> cases run
  | succ fuel ih =>
      rcases pending with - | ⟨⟨- | node⟩ | node, rest⟩
      · cases run
      · have top := searching.nested.1
        cases below : owner rest with
        | none => simp [below, Frame.node?] at top
        | some vertex =>
            rw [below] at top
            obtain ⟨frame, stacked, is⟩ := List.mem_filterMap.mp (List.mem_of_mem_head? below)
            have named : frame.node? = some vertex := by
              cases frame with
              | enter _ => cases is
              | finish _ => exact is
            exact ⟨vertex, searching.nested.2.reached stacked named, Or.inl top⟩
      · rw [visit] at run
        split at run
        next done => exact ih (searching.skip done) run
        next open_ =>
          have unfinished := (searching.unfinished node).mp open_
          exact ⟨node, searching.nested.reached List.mem_cons_self rfl,
            Or.inr (searching.nested.path rfl unfinished)⟩
        next unseen => exact ih (searching.enter unseen) run
      · exact ih searching.finish run

/-- The same for the roots left to search. -/
theorem Searching.visitRoots_finished {final : Search Node}
    (searching : Searching dependencies roots search []) (included : rest.Subset roots)
    (run : visitRoots dependencies fuel rest search = .finished final)
    : Searching dependencies roots final []
      ∧ search.ordered.Subset final.ordered
      ∧ rest.Subset final.ordered := by
  induction rest generalizing search with
  | nil =>
      obtain rfl := Outcome.finished.inj run
      exact ⟨searching, List.Subset.refl _, List.nil_subset _⟩
  | cons root rest ih =>
      rw [visitRoots] at run
      split at run
      next next visited =>
        obtain ⟨ended, kept, entered⟩ :=
          (searching.start (included List.mem_cons_self)).visit_finished visited
        obtain ⟨final, grown, others⟩ := ih ended (fun node member => included (by simp [member])) run
        refine ⟨final, kept.trans grown, List.cons_subset.mpr ⟨grown ?_, others⟩⟩
        exact entered _ List.mem_cons_self root rfl
      next unfinished => exact absurd run (unfinished final)

theorem Searching.visitRoots_rejected (searching : Searching dependencies roots search [])
    (included : rest.Subset roots) (run : visitRoots dependencies fuel rest search = .rejected)
    : ∃ node,
        Reached dependencies roots node
        ∧ (none ∈ dependencies node ∨ Relation.TransGen (Edge dependencies) node node) := by
  induction rest generalizing search with
  | nil => cases run
  | cons root rest ih =>
      have started := searching.start (included List.mem_cons_self)
      rw [visitRoots] at run
      split at run
      next next visited =>
        exact ih (started.visit_finished visited).1 (fun node member => included (by simp [member])) run
      next unfinished => exact started.visit_rejected run

/-- An accepted order lists exactly the reached vertices, each once and after all of its
dependencies, and none of them misses one.
-/
structure Ordered (dependencies : Node → List (Option Node)) (roots order : List Node)
    : Prop where
  distinct : order.Nodup
  first : DependencyFirst (Edge dependencies) order
  listed : ∀ node, node ∈ order ↔ Reached dependencies roots node
  present : ∀ node ∈ order, none ∉ dependencies node

theorem dependencyOrder_finished (run : dependencyOrder fuel roots dependencies = .finished order)
    : Ordered dependencies roots order := by
  rw [dependencyOrder] at run
  split at run
  next search visited =>
    obtain rfl := Outcome.finished.inj run
    obtain ⟨ended, -, rooted⟩ :=
      Searching.initial.visitRoots_finished (List.Subset.refl roots) visited
    refine ⟨ended.distinct, ended.first, fun node => ⟨ended.reached node, ?_⟩, ended.present⟩
    rintro ⟨root, member, path⟩
    exact ended.first.mem_of_ancestor (rooted member) path
  all_goals cases run

/-- A rejection is justified: some reached vertex misses a dependency or lies on a cycle. -/
theorem dependencyOrder_rejected (run : dependencyOrder fuel roots dependencies = .rejected)
    : ∃ node,
        Reached dependencies roots node
        ∧ (none ∈ dependencies node ∨ Relation.TransGen (Edge dependencies) node node) := by
  rw [dependencyOrder] at run
  split at run
  next => cases run
  next visited => exact Searching.initial.visitRoots_rejected (List.Subset.refl roots) visited
  next => cases run

-- Termination within the budget of a finite graph

/-- The pops still needed for the vertices of `bound` that are not entered yet. -/
def remaining (dependencies : Node → List (Option Node)) (bound : List Node)
    (search : Search Node)
    : ℕ :=
  (bound.map fun node =>
    if search.states node = none then (dependencies node).length + 1 else 0).sum

/-- The graph below the roots stays inside `bound`. -/
structure BoundedBy (dependencies : Node → List (Option Node)) (bound : List Node) : Prop where
  closed : ∀ node ∈ bound, ∀ ancestor, Edge dependencies node ancestor → ancestor ∈ bound

/-- Marking a vertex leaves no more pops for the others. -/
theorem remaining_update {mark : Bool}
    : remaining dependencies bound
        { states := Function.update search.states node (some mark), ordered := order }
      ≤ remaining dependencies bound search := by
  induction bound with
  | nil => simp [remaining]
  | cons head rest ih =>
      simp only [remaining, List.map_cons, List.sum_cons] at ih ⊢
      by_cases same : head = node
      · simp only [same, Function.update_self, reduceCtorEq, ite_false]
        omega
      · simp only [Function.update_of_ne same]
        omega

/-- Entering a vertex of the bound pays for its dependencies and its finish frame. -/
theorem remaining_enter (member : node ∈ bound) (unseen : search.states node = none)
    : remaining dependencies bound
        { search with states := Function.update search.states node (some false) }
          + ((dependencies node).length + 1)
      ≤ remaining dependencies bound search := by
  induction bound with
  | nil => cases member
  | cons head rest ih =>
      by_cases same : head = node
      · subst same
        have others
            : remaining dependencies rest
                { states := Function.update search.states head (some false), ordered := search.ordered }
              ≤ remaining dependencies rest search :=
          remaining_update
        simp only [remaining, List.map_cons, List.sum_cons, Function.update_self, unseen,
          reduceCtorEq, ite_false, ite_true] at others ⊢
        omega
      · have inRest := ih ((List.mem_cons.mp member).resolve_left (Ne.symm same))
        simp only [remaining, List.map_cons, List.sum_cons, Function.update_of_ne same] at inRest ⊢
        omega

/-- With enough budget the inner loop ends: every pop is paid by the stack or by an
unentered vertex of the bound.
-/
theorem visit_terminates (bounded : BoundedBy dependencies bound)
    (inside : ∀ frame ∈ pending, ∀ node, frame = .enter (some node) → node ∈ bound)
    (budget : pending.length + remaining dependencies bound search ≤ fuel)
    : visit dependencies fuel search pending ≠ .exhausted := by
  induction fuel generalizing search pending with
  | zero =>
      cases pending with
      | nil => simp [visit]
      | cons frame rest => simp at budget
  | succ fuel ih =>
      rcases pending with - | ⟨⟨- | node⟩ | node, rest⟩
      · simp [visit]
      · simp [visit]
      · have later : ∀ frame ∈ rest, ∀ node, frame = .enter (some node) → node ∈ bound :=
          fun frame member => inside frame (List.mem_cons_of_mem _ member)
        simp only [List.length_cons] at budget
        rw [visit]
        split
        · exact ih later (by omega)
        · simp
        next unseen =>
          have member := inside _ List.mem_cons_self node rfl
          have paid
              : remaining dependencies bound
                  { search with states := Function.update search.states node (some false) }
                    + ((dependencies node).length + 1)
                ≤ remaining dependencies bound search :=
            remaining_enter member unseen
          refine ih ?_ ?_
          · intro frame stacked other is
            rcases List.mem_append.mp stacked with pushed | old
            · obtain ⟨dependency, declared, same⟩ := List.mem_map.mp pushed
              obtain rfl : dependency = some other := Frame.enter.inj (same.trans is)
              exact bounded.closed node member other declared
            · rcases List.mem_cons.mp old with rfl | old
              · cases is
              · exact later frame old other is
          · simp only [List.length_append, List.length_map, List.length_cons]
            omega
      · rw [visit]
        have fewer
            : remaining dependencies bound
                {
                  states := Function.update search.states node (some true)
                  ordered := search.ordered ++ [node]
                }
              ≤ remaining dependencies bound search :=
          remaining_update
        simp only [List.length_cons] at budget
        exact ih (fun frame member => inside frame (List.mem_cons_of_mem _ member)) (by omega)

omit [DecidableEq Node] in
theorem remaining_le_searchFuel (bound : List Node) (search : Search Node)
    : 1 + remaining dependencies bound search ≤ searchFuel bound dependencies := by
  induction bound with
  | nil => simp [searchFuel, remaining]
  | cons head rest ih =>
      simp only [searchFuel, remaining, List.map_cons, List.sum_cons] at ih ⊢
      split <;> omega

/-- The traversal of a finite graph always decides: the budget of any list that holds the
roots and is closed under dependencies is enough.
-/
theorem dependencyOrder_terminates (bounded : BoundedBy dependencies bound)
    (included : roots.Subset bound) (enough : searchFuel bound dependencies ≤ fuel)
    : dependencyOrder fuel roots dependencies ≠ .exhausted := by
  have rootsTerminate (rest : List Node) (inside : rest.Subset bound) (search : Search Node)
      : visitRoots dependencies fuel rest search ≠ .exhausted := by
    induction rest generalizing search with
    | nil => simp [visitRoots]
    | cons root rest ih =>
        have started : visit dependencies fuel search [.enter (some root)] ≠ .exhausted := by
          refine visit_terminates bounded ?_ ?_
          · intro frame member node is
            rw [List.mem_singleton.mp member] at is
            obtain rfl : root = node := by simpa using is
            exact inside List.mem_cons_self
          · have bound : 1 + remaining dependencies bound search ≤ searchFuel bound dependencies :=
              remaining_le_searchFuel bound search
            simp only [List.length_singleton]
            omega
        rw [visitRoots]
        split
        · exact ih (fun node member => inside (by simp [member])) _
        · exact started
  have ended := rootsTerminate roots included { states := fun _ => none, ordered := [] }
  rw [dependencyOrder]
  split
  · simp
  · simp
  next out => exact absurd out ended

/-- On a finite acyclic graph without missing vertices the traversal succeeds. -/
theorem dependencyOrder_succeeds (bounded : BoundedBy dependencies bound)
    (included : roots.Subset bound)
    (present : ∀ node, Reached dependencies roots node → none ∉ dependencies node)
    (acyclic : Acyclic (Edge dependencies))
    : ∃ order,
        dependencyOrder (searchFuel bound dependencies) roots dependencies = .finished order := by
  cases run : dependencyOrder (searchFuel bound dependencies) roots dependencies with
  | exhausted => exact absurd run (dependencyOrder_terminates bounded included (Nat.le_refl _))
  | rejected =>
      obtain ⟨node, reached, missing | cycle⟩ := dependencyOrder_rejected run
      · exact absurd missing (present node reached)
      · exact absurd cycle (acyclic node)
  | finished order => exact ⟨order, rfl⟩

-- The traversal decides

/-- A larger budget changes no search that ended, by induction on the pops. -/
theorem visit_mono {more : ℕ} (larger : fuel ≤ more)
    (ended : visit dependencies fuel search pending ≠ .exhausted)
    : visit dependencies more search pending = visit dependencies fuel search pending := by
  induction fuel generalizing more search pending with
  | zero =>
      cases pending with
      | nil => simp only [visit]
      | cons frame rest => exact absurd rfl ended
  | succ fuel ih =>
      obtain ⟨less, rfl⟩ : ∃ less, more = less + 1 := ⟨more - 1, by omega⟩
      have smaller : fuel ≤ less := by omega
      rcases pending with - | ⟨⟨- | node⟩ | node, rest⟩
      · simp only [visit]
      · simp only [visit]
      · rw [visit] at ended
        rw [visit, visit]
        cases mark : search.states node with
        | none =>
            rw [mark] at ended
            exact ih smaller ended
        | some done =>
            rw [mark] at ended
            cases done with
            | true => exact ih smaller ended
            | false => rfl
      · rw [visit] at ended
        rw [visit, visit]
        exact ih smaller ended

theorem visitRoots_mono {more : ℕ} (larger : fuel ≤ more)
    (ended : visitRoots dependencies fuel rest search ≠ .exhausted)
    : visitRoots dependencies more rest search = visitRoots dependencies fuel rest search := by
  induction rest generalizing search with
  | nil => rfl
  | cons root rest ih =>
      rw [visitRoots] at ended
      rw [visitRoots, visitRoots]
      have first : visit dependencies fuel search [.enter (some root)] ≠ .exhausted := by
        intro out
        rw [out] at ended
        exact ended rfl
      rw [visit_mono larger first]
      cases run : visit dependencies fuel search [.enter (some root)] with
      | exhausted => rfl
      | rejected => rfl
      | finished next =>
          rw [run] at ended
          exact ih ended

theorem dependencyOrder_mono {more : ℕ} (larger : fuel ≤ more)
    (ended : dependencyOrder fuel roots dependencies ≠ .exhausted)
    : dependencyOrder more roots dependencies = dependencyOrder fuel roots dependencies := by
  have visited
      : visitRoots dependencies fuel roots { states := fun _ => none, ordered := [] }
        ≠ .exhausted := by
    intro out
    rw [dependencyOrder, out] at ended
    exact ended rfl
  rw [dependencyOrder, dependencyOrder, visitRoots_mono larger visited]

/-- An ordered graph has no reached vertex that misses a dependency or lies on a cycle. -/
theorem Ordered.sound (ordered : Ordered dependencies roots order)
    (reached : Reached dependencies roots node)
    : ¬ (none ∈ dependencies node ∨ Relation.TransGen (Edge dependencies) node node) := by
  have listed := (ordered.listed node).mpr reached
  rintro (missing | cycle)
  · exact ordered.present node listed missing
  · exact Nat.lt_irrefl _ (ordered.first.idxOf_lt_of_path ordered.distinct listed cycle)

/-- From some budget on the traversal of a graph with finitely many reached vertices ends in one
way: it is rejected exactly when a reached vertex misses a dependency or lies on a cycle, and else
it lists each reached vertex once, after all of its dependencies.
-/
theorem dependencyOrder_exact (roots : List Node) (dependencies : Node → List (Option Node))
    (finite : {node | Reached dependencies roots node}.Finite)
    : ∃ (enough : ℕ) (outcome : Outcome (List Node)),
        (∀ fuel, enough ≤ fuel → dependencyOrder fuel roots dependencies = outcome)
        ∧ outcome ≠ .exhausted
        ∧ (outcome = .rejected
          ↔ ∃ node, Reached dependencies roots node
            ∧ (none ∈ dependencies node ∨ Relation.TransGen (Edge dependencies) node node))
        ∧ ∀ order, outcome = .finished order → Ordered dependencies roots order := by
  let bound := finite.toFinset.toList
  have member (node : Node) : node ∈ bound ↔ Reached dependencies roots node := by
    rw [Finset.mem_toList, Set.Finite.mem_toFinset]
    rfl
  have bounded : BoundedBy dependencies bound :=
    ⟨fun node listed ancestor edge => (member ancestor).mpr (((member node).mp listed).edge edge)⟩
  have included : roots.Subset bound := fun root isRoot =>
    (member root).mpr ⟨root, isRoot, .refl⟩
  have ended : dependencyOrder (searchFuel bound dependencies) roots dependencies ≠ .exhausted :=
    dependencyOrder_terminates bounded included (Nat.le_refl _)
  refine ⟨searchFuel bound dependencies,
    dependencyOrder (searchFuel bound dependencies) roots dependencies,
    fun fuel enough => dependencyOrder_mono enough ended, ended, ⟨dependencyOrder_rejected, ?_⟩,
    fun order => dependencyOrder_finished⟩
  rintro ⟨node, reached, unsound⟩
  cases run : dependencyOrder (searchFuel bound dependencies) roots dependencies with
  | exhausted => exact absurd run ended
  | rejected => rfl
  | finished order => exact absurd unsound ((dependencyOrder_finished run).sound reached)

end Discipline

/-- A vertex that two vertices share is listed once. -/
def diamond (node : ℕ) : List (Option ℕ) :=
  if node = 0 then [some 1, some 2] else if node < 3 then [some 3] else []

theorem dependencyOrder_exact_diamond
    : ∃ (enough : ℕ) (outcome : Outcome (List ℕ)),
        (∀ fuel, enough ≤ fuel → dependencyOrder fuel [0] diamond = outcome)
        ∧ outcome ≠ .exhausted
        ∧ (outcome = .rejected
          ↔ ∃ node, Reached diamond [0] node
            ∧ (none ∈ diamond node ∨ Relation.TransGen (Edge diamond) node node))
        ∧ ∀ order, outcome = .finished order → Ordered diamond [0] order := by
  refine dependencyOrder_exact [0] diamond ((Set.finite_le_nat 3).subset ?_)
  rintro node ⟨root, isRoot, path⟩
  have small : ∀ vertex ancestor, Edge diamond vertex ancestor → ancestor ≤ 3 := by
    intro vertex ancestor edge
    unfold Edge diamond at edge
    split_ifs at edge with first second
    · simp only [List.mem_cons, Option.some.injEq, List.not_mem_nil, or_false] at edge
      omega
    · simp only [List.mem_cons, Option.some.injEq, List.not_mem_nil, or_false] at edge
      omega
    · exact absurd edge List.not_mem_nil
  cases path with
  | refl =>
      rw [List.mem_singleton.mp isRoot]
      exact Nat.zero_le 3
  | tail _ edge => exact small _ _ edge

end SpeculativeAction
