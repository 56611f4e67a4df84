import SpeculativeAction.TaskTiming.Model

/-! One call over two timelines that mirror each other: what the call reads of a computation is
the same in both, so the recorded timing is.
-/

namespace SpeculativeAction.TaskTiming

open SpeculativeAction.Library

section Mirrors

variable {m n : ℕ}

/-- A shared part is read for its clock and its ends only. -/
def SamePart (process : Process) (left : Timeline m) (right : Timeline n) (part : Fin m)
    (original : Fin n)
    : Prop :=
  computationClock process left part = computationClock process right original
    ∧ (left part).toSpan = (right original).toSpan

structure SameInput (process : Process) (left : Timeline m) (right : Timeline n)
    (mirrors : Fin m → Fin n → Prop) (input : TimelineDependency m)
    (original : TimelineDependency n)
    : Prop where
  computation : mirrors input.computation original.computation
  reused : input.reused = original.reused
  overhead : input.overhead = original.overhead
  computeUncertain : input.computeUncertain = original.computeUncertain
  shared : List.Forall₂ (SamePart process left right) input.shared original.shared

/-- Two computations with the same evidence, as a call reads it. -/
structure SameEvidence (process : Process) (left : Timeline m) (right : Timeline n)
    (mirrors : Fin m → Fin n → Prop) (computation : Fin m) (original : Fin n)
    : Prop where
  identity : (left computation).identity = (right original).identity
  interval : (left computation).toInterval = (right original).toInterval
  spans : (left computation).spans = (right original).spans
  priorMs : (left computation).priorMs = (right original).priorMs
  incomplete : (left computation).incomplete = (right original).incomplete
  clock : computationClock process left computation = computationClock process right original
  timeOrigin
    : computationTimeOrigin process left computation = computationTimeOrigin process right original
  producer : computationProducer left computation = computationProducer right original
  groups : computationGroups left computation = computationGroups right original
  inputs
    : List.Forall₂ (SameInput process left right mirrors) (left computation).inputs
        (right original).inputs

/-- A relation between the computations of two timelines that keeps their evidence and tells
them apart alike.
-/
structure Mirrors (process : Process) (left : Timeline m) (right : Timeline n)
    (mirrors : Fin m → Fin n → Prop)
    : Prop where
  same
    : ∀ computation original, mirrors computation original →
        SameEvidence process left right mirrors computation original
  unique
    : ∀ computation original other otherOriginal,
        mirrors computation original → mirrors other otherOriginal →
          (computation = other ↔ original = otherOriginal)

end Mirrors

-- Consumption

section Consumption

variable {m n : ℕ} {process : Process} {left : Timeline m} {right : Timeline n}
variable {mirrors : Fin m → Fin n → Prop}
  {item : Pending m} {state : Consumed m} {original : Consumed n} {other : Fin n × Bool}

structure SamePending (process : Process) (left : Timeline m) (right : Timeline n)
    (mirrors : Fin m → Fin n → Prop) (item : Pending m) (original : Pending n)
    : Prop where
  input : SameInput process left right mirrors item.input original.input
  inherited : item.inheritedReuse = original.inheritedReuse

structure SameSelected (mirrors : Fin m → Fin n → Prop) (entry : Selected m)
    (original : Selected n)
    : Prop where
  computation : mirrors entry.computation original.computation
  own : entry.own = original.own
  reused : entry.reused = original.reused
  producer : entry.producer = original.producer

structure SameConsumed (mirrors : Fin m → Fin n → Prop) (state : Consumed m)
    (original : Consumed n)
    : Prop where
  selected : OrderedMap.Related (SameSelected mirrors) state.selected original.selected
  visited
    : List.Forall₂ (fun visit other => mirrors visit.1 other.1 ∧ visit.2 = other.2) state.visited
        original.visited
  groups : state.groups = original.groups
  complete : state.complete = original.complete
  incomplete : state.incomplete = original.incomplete

theorem SamePending.reused {original : Pending n}
    (same : SamePending process left right mirrors item original)
    : item.reused = original.reused := by
  rw [Pending.reused, Pending.reused, same.inherited, same.input.reused]

theorem SameConsumed.examine (same : SameConsumed mirrors state original) {other : Pending n}
    (pending : SamePending process left right mirrors item other)
    : SameConsumed mirrors (state.examine item) (original.examine other) := by
  rw [Consumed.examine, Consumed.examine, pending.input.computeUncertain]
  split
  · exact
      { selected := same.selected
        visited := same.visited
        groups := same.groups
        complete := rfl
        incomplete := by rw [same.incomplete, pending.reused] }
  · exact same

/-- The same visits were made before. -/
theorem mem_visited_iff (mirroring : Mirrors process left right mirrors)
    {visited : List (Fin m × Bool)} {others : List (Fin n × Bool)}
    (same
      : List.Forall₂ (fun visit other => mirrors visit.1 other.1 ∧ visit.2 = other.2) visited
          others)
    {visit : Fin m × Bool} (paired : mirrors visit.1 other.1)
    (flags : visit.2 = other.2)
    : visit ∈ visited ↔ other ∈ others := by
  induction same with
  | nil => simp
  | cons first _ ih =>
      rw [List.mem_cons, List.mem_cons, ih, Prod.ext_iff, Prod.ext_iff, flags, first.2,
        mirroring.unique _ _ _ _ paired first.1]

theorem SameSelected.preferred (mirroring : Mirrors process left right mirrors)
    {previous : Option (Selected m)} {before : Option (Selected n)}
    (entries : Option.Rel (SameSelected mirrors) previous before) {current : Fin m}
    {original : Fin n} (paired : mirrors current original)
    : mirrors (preferredComputation left (previous.map (·.computation)) current)
        (preferredComputation right (before.map (·.computation)) original) := by
  cases entries with
  | none => exact paired
  | some entry =>
      have old := mirroring.same _ _ entry.computation
      have new := mirroring.same _ _ paired
      simp only [preferredComputation, Option.map_some]
      rw [old.incomplete, new.incomplete, old.interval, new.interval]
      split
      · exact paired
      · split
        · exact entry.computation
        · split
          · exact paired
          · exact entry.computation

/-- Visiting mirrored computations keeps the states mirrored. -/
theorem SameConsumed.select (mirroring : Mirrors process left right mirrors)
    (same : SameConsumed mirrors state original) {visit : Fin m × Bool}
    (paired : mirrors visit.1 other.1) (flags : visit.2 = other.2)
    : SameConsumed mirrors (state.select left visit) (original.select right other) := by
  have evidence := mirroring.same _ _ paired
  have entries := same.selected.get? (right other.1).identity
  have parts
      : ((state.selected.get? (right other.1).identity).any (·.own)
            = (original.selected.get? (right other.1).identity).any (·.own))
        ∧ ((state.selected.get? (right other.1).identity).any (·.reused)
            = (original.selected.get? (right other.1).identity).any (·.reused))
        ∧ (state.selected.get? (right other.1).identity).bind (·.producer)
            = (original.selected.get? (right other.1).identity).bind (·.producer) := by
    generalize state.selected.get? (right other.1).identity = previous at entries
    generalize original.selected.get? (right other.1).identity = before at entries
    cases entries with
    | none => exact ⟨rfl, rfl, rfl⟩
    | some entry => exact ⟨entry.own, entry.reused, entry.producer⟩
  refine
    { selected := ?_
      visited := .cons ⟨paired, flags⟩ same.visited
      groups := ?_
      complete := same.complete
      incomplete := same.incomplete }
  · simp only [Consumed.select]
    rw [evidence.identity]
    refine same.selected.set _ ?_
    exact
      { computation := SameSelected.preferred mirroring entries paired
        own := by rw [parts.1, flags]
        reused := by rw [parts.2.1, flags]
        producer := by rw [parts.2.2, evidence.producer] }
  · simp only [Consumed.select]
    rw [evidence.identity, evidence.groups, same.groups]

/-- Mirrored items ask for mirrored visits. -/
theorem SamePending.visit {original : Pending n}
    (same : SamePending process left right mirrors item original)
    : Option.Rel (fun visit other => mirrors visit.1 other.1 ∧ visit.2 = other.2) item.visit
        original.visit := by
  rw [Pending.visit, Pending.visit, same.input.overhead]
  split
  · exact .none
  · exact .some ⟨same.input.computation, same.reused⟩

theorem inputsOf_mirrors (mirroring : Mirrors process left right mirrors) {visit : Fin m × Bool}
    (paired : mirrors visit.1 other.1) (flags : visit.2 = other.2)
    : List.Forall₂ (SamePending process left right mirrors) (inputsOf left visit)
        (inputsOf right other) := by
  rw [inputsOf, inputsOf, List.forall₂_map_left_iff, List.forall₂_map_right_iff]
  exact (mirroring.same _ _ paired).inputs.imp fun _ _ input => ⟨input, flags⟩

/-- Mirrored stacks are consumed alike, by the recursion of the traversal. -/
theorem consume_mirrors (mirroring : Mirrors process left right mirrors)
    {pending : List (Pending m)} {originals : List (Pending n)}
    (items : List.Forall₂ (SamePending process left right mirrors) pending originals)
    (same : SameConsumed mirrors state original)
    : SameConsumed mirrors (consume left pending state) (consume right originals original) := by
  induction pending, state using consume.induct left generalizing originals original with
  | case1 state =>
      cases items
      rw [consume, consume]
      exact same
  | case2 state item rest skipped ih =>
      cases items with
      | @cons _ other _ others first more =>
          have visits := first.visit
          rw [skipped] at visits
          generalize asked : other.visit = otherVisit at visits
          cases visits
          rw [consume, consume, skipped, asked]
          exact ih more (same.examine first)
  | case3 state item rest visit asked seen ih =>
      cases items with
      | @cons _ other _ others first more =>
          have visits := first.visit
          rw [asked] at visits
          generalize asked' : other.visit = otherVisit at visits
          cases visits with
          | some paired =>
              have seen' := (mem_visited_iff mirroring same.visited paired.1 paired.2).mp seen
              rw [consume, consume, asked, asked']
              simp only [seen, seen', if_true]
              exact ih more (same.examine first)
  | case4 state item rest visit asked fresh ih =>
      cases items with
      | @cons _ other _ others first more =>
          have visits := first.visit
          rw [asked] at visits
          generalize asked' : other.visit = otherVisit at visits
          cases visits with
          | some paired =>
              have fresh' :=
                (not_congr (mem_visited_iff mirroring same.visited paired.1 paired.2)).mp fresh
              rw [consume, consume, asked, asked']
              simp only [fresh, fresh', if_false]
              exact ih (List.rel_append (inputsOf_mirrors mirroring paired.1 paired.2) more)
                ((same.examine first).select mirroring paired.1 paired.2)

theorem consumedComputations_mirrors (mirroring : Mirrors process left right mirrors)
    {roots : List (TimelineDependency m)} {originals : List (TimelineDependency n)}
    (same : List.Forall₂ (SameInput process left right mirrors) roots originals)
    : SameConsumed mirrors (consumedComputations left roots)
        (consumedComputations right originals) := by
  refine consume_mirrors mirroring ?_
    { selected := .empty
      visited := .nil
      groups := rfl
      complete := rfl
      incomplete := rfl }
  rw [List.forall₂_map_left_iff, List.forall₂_map_right_iff]
  exact same.imp fun _ _ input => ⟨input, rfl⟩

end Consumption

-- The account

section Accounts

variable {m n : ℕ} {process : Process} {left : Timeline m} {right : Timeline n}
variable {mirrors : Fin m → Fin n → Prop}
  {computation : Fin m} {original : Fin n} {roots : List (TimelineDependency m)}
  {originals : List (TimelineDependency n)}

theorem SameEvidence.cutoff (same : SameEvidence process left right mirrors computation original)
    (issuedAt : Number)
    : cutoff process left computation issuedAt = cutoff process right original issuedAt := by
  rw [TaskTiming.cutoff, TaskTiming.cutoff, same.clock, same.timeOrigin]

section

variable (mirroring : Mirrors process left right mirrors)

include mirroring

/-- The parts that the inputs account for are the same. -/
theorem sharedParts_mirrors (same : SameEvidence process left right mirrors computation original)
    : sharedParts process left computation = sharedParts process right original := by
  rw [sharedParts, sharedParts]
  congr 1
  have inputs := same.inputs
  generalize (left computation).inputs = first at inputs
  generalize (right original).inputs = second at inputs
  induction inputs with
  | nil => rfl
  | @cons input other _ _ input' _ ih =>
      have evidence := mirroring.same _ _ input'.computation
      rw [List.flatMap_cons, List.flatMap_cons, ih]
      congr 1
      have parts := input'.shared
      generalize input.shared = firstParts at parts
      generalize other.shared = secondParts at parts
      induction parts with
      | nil => rfl
      | cons part _ later =>
          rw [List.flatMap_cons, List.flatMap_cons, later, part.1, part.2, same.clock,
            evidence.clock, evidence.interval]

theorem ownIntervals_mirrors (same : SameEvidence process left right mirrors computation original)
    : ownIntervals process left computation = ownIntervals process right original := by
  rw [ownIntervals, ownIntervals, sharedParts_mirrors mirroring same, same.spans, same.interval]

/-- Entering mirrored choices changes an account alike. -/
theorem Account.enter_mirrors (issuedAt : Number) (account : Account) {entry : Selected m}
    {original : Selected n} (same : SameSelected mirrors entry original)
    : account.enter process left issuedAt entry = account.enter process right issuedAt original := by
  have evidence := mirroring.same _ _ same.computation
  simp only [Account.enter]
  rw [ownIntervals_mirrors mirroring evidence, evidence.cutoff, evidence.identity,
    evidence.priorMs, evidence.incomplete, evidence.clock, same.reused, same.producer]

theorem account_mirrors (same : List.Forall₂ (SameInput process left right mirrors) roots originals)
    (issuedAt : Number) (completedAt : Option Number)
    : account process left roots issuedAt completedAt
      = account process right originals issuedAt completedAt := by
  have consumed := consumedComputations_mirrors mirroring same
  have values := consumed.selected.values
  rw [account, account, consumed.complete, consumed.incomplete, consumed.groups]
  generalize (consumedComputations left roots).selected.values = first at values
  generalize (consumedComputations right originals).selected.values = second at values
  generalize Account.mk _ _ _ _ _ _ _ _ _ = start
  induction values generalizing start with
  | nil => rfl
  | cons entry _ ih =>
      rw [List.foldl_cons, List.foldl_cons, Account.enter_mirrors mirroring issuedAt start entry]
      exact ih _

/-- A call over mirrored roots records the same timing and leaves the same timeline. -/
theorem recordCall_mirrors (timeline : TaskTimeline)
    (same : List.Forall₂ (SameInput process left right mirrors) roots originals) (issuedAt : Number)
    (completedAt : Option Number)
    : recordCall process left timeline roots issuedAt completedAt
      = recordCall process right timeline originals issuedAt completedAt := by
  rw [recordCall, recordCall, account_mirrors mirroring same]

end

end Accounts

end SpeculativeAction.TaskTiming
