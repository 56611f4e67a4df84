import SpeculativeAction.ProcessHandoff.Accounting
import SpeculativeAction.ProcessHandoff.Lending

/-! What operations of one registry do to its records: old ones keep what ties them to loans and
to other versions of their result, and new ones are tied to nothing.
-/

namespace SpeculativeAction.ProcessHandoff

open SpeculativeAction.Library

variable {Key Value Invocation : Type}

namespace Registry

section Relations

/-- What ties a record to loans and to the other versions of its result. -/
structure SameLineage (before after : Record Key) : Prop where
  claimState : after.claimState = before.claimState
  receipts : after.receipts = before.receipts
  imported : after.imported = before.imported
  origin : after.origin = before.origin
  replaces : after.replaces = before.replaces

theorem SameLineage.refl (record : Record Key) : SameLineage record record :=
  ⟨rfl, rfl, rfl, rfl, rfl⟩

theorem SameLineage.trans {before middle after : Record Key} (first : SameLineage before middle)
    (second : SameLineage middle after)
    : SameLineage before after where
  claimState := second.claimState.trans first.claimState
  receipts := second.receipts.trans first.receipts
  imported := second.imported.trans first.imported
  origin := second.origin.trans first.origin
  replaces := second.replaces.trans first.replaces

/-- A result that fits what is known of a received record. -/
def Fits (record : Record Key) (result : Option Result) : Prop :=
  ∀ found oneShot,
    result = some found → record.imported = some oneShot → found.oneShot = oneShot

/-- A record stays as it is, or stops running. -/
structure Follows (before after : Record Key) : Prop extends SameLineage before after where
  state
    : after.state = before.state
      ∨ before.state = .running
        ∧ ∃ result, after.state = .ended .completed result ∧ Fits before result

theorem Follows.refl (record : Record Key) : Follows record record :=
  ⟨.refl record, .inl rfl⟩

theorem Follows.trans {before middle after : Record Key} (first : Follows before middle)
    (second : Follows middle after)
    : Follows before after := by
  refine ⟨first.toSameLineage.trans second.toSameLineage, ?_⟩
  rcases second.state with same | ⟨running, result, ended, fits⟩
  · rw [same]
    exact first.state
  · rcases first.state with same | ⟨_, other, stopped, _⟩
    · refine .inr ⟨same ▸ running, result, ended, fun found oneShot here known => ?_⟩
      exact fits found oneShot here (first.imported.trans known)
    · rw [stopped] at running
      cases running

/-- A record of this registry's own, tied to nothing. -/
structure Fresh (home number : ℕ) (record : Record Key) : Prop where
  claimState : record.claimState = none
  receipts : record.receipts = []
  imported : record.imported = none
  origin : record.origin = ⟨home, number⟩
  replaces : record.replaces = none
  state : record.state = .running ∨ ∃ result, record.state = .ended .completed result
    ∨ record.state = .ended .retained none

theorem Fresh.follows {home number : ℕ} {before after : Record Key}
    (fresh : Fresh home number before) (follows : Follows before after)
    : Fresh home number after := by
  refine ⟨follows.claimState.trans fresh.claimState, follows.receipts.trans fresh.receipts,
    follows.imported.trans fresh.imported, follows.origin.trans fresh.origin,
    follows.replaces.trans fresh.replaces, ?_⟩
  rcases follows.state with same | ⟨_, result, ended, _⟩
  · rw [same]
    exact fresh.state
  · exact .inr ⟨result, .inl ended⟩

/-- Old records follow what they were, and new ones are tied to nothing. -/
structure Grows (home : ℕ) (before after : Registry Key Value) : Prop where
  recordsMade : before.recordsMade ≤ after.recordsMade
  old
    : ∀ number record,
        after.executions.get? number = some record → number < before.recordsMade
        → ∃ previous,
            before.executions.get? number = some previous ∧ Follows previous record
  new
    : ∀ number record,
        after.executions.get? number = some record → before.recordsMade ≤ number
        → number < after.recordsMade ∧ Fresh home number record

/-- What an operation that only its own registry sees does to records, loans and lends. -/
structure Evolves (home : ℕ) (before after : Registry Key Value) : Prop
    extends Grows home before after where
  loansMade : after.loansMade = before.loansMade
  lends : ∃ more, after.lends = before.lends ++ more ∧ ∀ entry ∈ more, entry.loans = []

variable {home : ℕ} {before middle after : Registry Key Value}

theorem Evolves.trans (first : Evolves home before middle) (second : Evolves home middle after)
    : Evolves home before after where
  recordsMade := first.recordsMade.trans second.recordsMade
  loansMade := second.loansMade.trans first.loansMade
  lends := by
    obtain ⟨sooner, made, bare⟩ := first.lends
    obtain ⟨later, more, empty⟩ := second.lends
    refine ⟨sooner ++ later, by rw [more, made, List.append_assoc], fun entry member => ?_⟩
    exact (List.mem_append.mp member).elim (bare entry) (empty entry)
  old number record found below := by
    obtain ⟨between, here, later⟩ :=
      second.old number record found (below.trans_le first.recordsMade)
    obtain ⟨previous, there, sooner⟩ := first.old number between here below
    exact ⟨previous, there, sooner.trans later⟩
  new number record found above := by
    by_cases made : number < middle.recordsMade
    · obtain ⟨between, here, later⟩ := second.old number record found made
      obtain ⟨_, fresh⟩ := first.new number between here above
      exact ⟨made.trans_le second.recordsMade, fresh.follows later⟩
    · exact second.new number record found (Nat.le_of_not_lt made)

theorem unchanged {before after : List Lend} (same : after = before)
    : ∃ more, after = before ++ more ∧ ∀ entry ∈ more, entry.loans = [] :=
  ⟨[], by rw [same, List.append_nil], fun _ none_ => absurd none_ List.not_mem_nil⟩

/-- Records that only left: those of a registry are numbered below what it made. -/
theorem Sheds.evolves (sheds : Sheds before after)
    (below
      : ∀ number, before.recordsMade ≤ number → before.executions.get? number = none)
    : Evolves home before after where
  recordsMade := le_of_eq sheds.recordsMade.symm
  loansMade := sheds.loansMade
  lends := unchanged sheds.lends
  old number record found _ := ⟨record, sheds.kept number record found, .refl record⟩
  new number record found above := by
    have kept := sheds.kept number record found
    rw [below number above] at kept
    cases kept

theorem sheds_foldl {ι : Type} (change : Registry Key Value → ι → Registry Key Value)
    (sheds : ∀ registry item, Sheds registry (change registry item)) (items : List ι)
    (registry : Registry Key Value)
    : Sheds registry (items.foldl change registry) := by
  induction items generalizing registry with
  | nil => exact .refl registry
  | cons item rest ih => exact (sheds registry item).trans (ih _)

end Relations

section Operations

variable [DecidableEq Key] {registry : Registry Key Value} {inHand : Option ℕ} {home number : ℕ}
  {record : Record Key} {key : Key}

section

variable (accounted : registry.Accounted inHand)

include accounted

theorem Accounted.evolves_refl
    : Evolves home registry registry :=
  (Sheds.refl registry).evolves accounted.recordsMade

theorem Accounted.evolves_remove (number : ℕ) (key : Key)
    : Evolves home registry (registry.remove number key) :=
  (sheds_remove registry number key).evolves accounted.recordsMade

theorem Accounted.evolves_trim
    : Evolves home registry registry.trim :=
  (sheds_trim registry).evolves accounted.recordsMade

/-- Nothing that was made changes. -/
theorem Accounted.evolves_same {after : Registry Key Value}
    (executions : after.executions = registry.executions)
    (made : after.recordsMade = registry.recordsMade) (loans : after.loansMade = registry.loansMade)
    (lends : ∃ more, after.lends = registry.lends ++ more ∧ ∀ entry ∈ more, entry.loans = [])
    : Evolves home registry after where
  recordsMade := le_of_eq made.symm
  loansMade := loans
  lends := lends
  old number record found _ := ⟨record, executions ▸ found, .refl record⟩
  new number record found above := by
    rw [executions, accounted.recordsMade number above] at found
    cases found

/-- One record changes and nothing else is made. -/
theorem Accounted.evolves_set (after : Registry Key Value) (next : Record Key)
    (found : registry.executions.get? number = some record) (follows : Follows record next)
    (changed : after.executions = registry.executions.set number next)
    (made : after.recordsMade = registry.recordsMade) (loans : after.loansMade = registry.loansMade)
    (lends : after.lends = registry.lends)
    : Evolves home registry after where
  recordsMade := le_of_eq made.symm
  loansMade := loans
  lends := unchanged lends
  old other left here below := by
    rcases (accounted.set_cases found (changed ▸ here)).2 with ⟨rfl, rfl⟩ | before
    · exact ⟨record, found, follows⟩
    · exact ⟨left, before, .refl left⟩
  new other left here above :=
    absurd (accounted.set_cases found (changed ▸ here)).1 (Nat.not_lt.mpr above)

theorem Accounted.evolves_reserve (fresh : Fresh home registry.recordsMade record)
    {after : Registry Key Value} (changed : after.executions = (registry.reserve record).executions)
    (made : after.recordsMade = registry.recordsMade + 1)
    (loans : after.loansMade = registry.loansMade) (lends : after.lends = registry.lends)
    : Evolves home registry after where
  recordsMade := by omega
  loansMade := loans
  lends := unchanged lends
  old other left here below := by
    rw [changed, Registry.reserve, OrderedMap.get?_set, if_neg (by omega)] at here
    exact ⟨left, here, .refl left⟩
  new other left here above := by
    rw [changed, Registry.reserve, OrderedMap.get?_set] at here
    split at here
    · next same =>
        rw [← Option.some.inj here, same]
        exact ⟨by omega, fresh⟩
    · rw [accounted.recordsMade other above] at here
      cases here

end

theorem Accounted.evolves_complete {result : Option Result} {completed : Registry Key Value}
    (accounted : registry.Accounted (result.map Result.number))
    (done : registry.complete key number result = (completed, true))
    (fits
      : ∀ record, registry.executions.get? number = some record → Fits record result)
    : Evolves home registry completed := by
  obtain ⟨record, found, _, running, rfl⟩ := complete_spec done
  have filled := accounted.fill found running
  have unfinished : record.state = .running := by
    cases state : record.state with
    | running => rfl
    | ended status result =>
        rw [state] at running
        cases running
  refine Evolves.trans (accounted.evolves_set (registry.fill number record result)
    { record with state := .ended .completed result } found ⟨⟨rfl, rfl, rfl, rfl, rfl⟩, .inr ⟨unfinished, result, rfl, fits record found⟩⟩
    rfl rfl rfl rfl) ?_
  split
  · exact filled.evolves_remove number key
  · exact filled.evolves_trim

end Operations

section Bindings

variable [DecidableEq Key] {registry : Registry Key Value} {home number : ℕ}
  {record : Record Key} {key : Key} (capture : Capture Invocation Value)
  (invocation : Invocation) (executionMs : Number)

theorem Accounted.evolves_retainBinding (accounted : registry.Accounted none) (home : ℕ) (key : Key)
    (found : registry.executions.get? number = some record)
    : Evolves home registry
        (registry.retainBinding capture key number record invocation executionMs).1 := by
  rw [Registry.retainBinding]
  split
  · next unbound _ =>
      split
      · exact accounted.evolves_refl
      · simp only
        split
        · next previous _ =>
            rw [Registry.shareLaunch]
            refine Sheds.evolves ?_ accounted.recordsMade
            refine Sheds.trans ?_ (sheds_remove _ number record.key)
            split
            · exact ⟨fun _ _ here => here, rfl, rfl, rfl, rfl, rfl, rfl, rfl, rfl, rfl⟩
            · exact .refl registry
        · exact (accounted.evolves_set (registry.addLaunch number record _ _)
            { record with binding := some _ } found
            ⟨⟨rfl, rfl, rfl, rfl, rfl⟩, .inl rfl⟩ rfl rfl rfl rfl).trans
              (accounted.addLaunch found unbound key _ _).evolves_trim
  · exact accounted.evolves_refl

theorem Accounted.evolves_bind (accounted : registry.Accounted none)
    : Evolves home registry (registry.bind capture key number invocation).1 := by
  rw [Registry.bind]
  split
  · next record found =>
      have here := (Option.filter_eq_some_iff.mp found).1
      split
      · split
        · exact accounted.evolves_retainBinding capture invocation _ home key here
        · exact accounted.evolves_refl
      · exact accounted.evolves_refl
  · exact accounted.evolves_refl

theorem Accounted.evolves_observe (accounted : registry.Accounted none) (key : Key)
    (executablePath : String) (scope : ExecutionScope)
    : Evolves home registry
        (Registry.observe capture home registry key executablePath scope invocation
          executionMs).1 := by
  rw [Registry.observe]
  split
  · exact accounted.evolves_refl
  · simp only
    have observed : (registry.reserveObserved
        (observedRecord home registry key executablePath scope)).Accounted none :=
      accounted.reserve _ rfl rfl rfl
    have reserved : Evolves home registry (registry.reserveObserved
        (observedRecord home registry key executablePath scope)) :=
      accounted.evolves_reserve ⟨rfl, rfl, rfl, rfl, rfl, .inr ⟨none, .inr rfl⟩⟩ rfl rfl rfl rfl
    have found : (registry.reserveObserved (observedRecord home registry key executablePath
        scope)).executions.get? registry.recordsMade
        = some (observedRecord home registry key executablePath scope) := by
      rw [reserveObserved, Registry.reserve, OrderedMap.get?_set, if_pos rfl]
    have bound := observed.retainBinding capture key invocation executionMs found
    have kept := observed.evolves_retainBinding capture invocation executionMs home key found
    split
    · next same =>
        rw [same] at kept
        exact reserved.trans kept
    · next dropped =>
        rw [dropped] at kept bound
        exact (reserved.trans kept).trans (bound.evolves_remove _ _)

end Bindings

-- Every operation that only its own registry sees

section LocalSteps

variable [DecidableEq Key] {registry after : Registry Key Value} {home : ℕ}

theorem Accounted.publish (accounted : registry.Accounted none) (home : ℕ) (summary : Option Summary)
    : (System.publish registry summary).1.Accounted
          ((System.publish registry summary).2.map Result.number)
        ∧ Evolves home registry (System.publish registry summary).1 := by
  cases summary with
  | none => exact ⟨accounted, accounted.evolves_refl⟩
  | some summary =>
      constructor
      · constructor
        · exact accounted.bytes
        · exact accounted.count
        · exact accounted.index
        · exact accounted.bindings
        · exact accounted.bindingsMade
        · intro number
          have before := accounted.results number
          simp only [Option.toList_none, List.count_nil, Nat.add_zero] at before
          have inHand : [registry.resultsMade].count number
              = if number = registry.resultsMade then 1 else 0 := by
            rw [List.count_singleton]
            by_cases same : number = registry.resultsMade
            · simp [same]
            · simp [same, Ne.symm same]
          refine (congrArg₂ (· + ·) before inHand).trans ?_
          rw [show (System.publish registry (some summary)).1.resultsMade
            = registry.resultsMade + 1 from rfl]
          rcases lt_trichotomy number registry.resultsMade with below | same | above
          · rw [if_pos below, if_neg below.ne, if_pos (Nat.lt_succ_of_lt below)]
          · rw [if_neg same.not_lt, if_pos same, if_pos (Nat.lt_succ_of_le same.le)]
          · rw [if_neg above.not_gt, if_neg above.ne', if_neg (Nat.not_lt.mpr above)]
        · exact accounted.recordsMade
      · exact accounted.evolves_same rfl rfl rfl (unchanged rfl)

theorem Accounted.evolves_clearCompleted (accounted : registry.Accounted none)
    : Evolves home registry registry.clearCompleted := by
  refine (sheds_foldl clearRecord (fun registry entry => ?_) _ registry).evolves
    accounted.recordsMade
  rw [clearRecord]
  split
  · exact .refl registry
  · exact sheds_remove _ _ _

theorem Accounted.evolves_dispose (accounted : registry.Accounted none)
    : Evolves home registry registry.dispose := by
  have run (entries : List (ℕ × Record Key)) (start : Registry Key Value)
      (counted : start.Accounted none)
      (listed : ∀ entry ∈ entries, ∀ record,
        start.executions.get? entry.1 = some record → record.key = entry.2.key)
      : Evolves home start (entries.foldl disposeRecord start) := by
    induction entries generalizing start with
    | nil => exact counted.evolves_refl
    | cons entry rest ih =>
        obtain ⟨head, tail⟩ := List.forall_mem_cons.mp listed
        obtain ⟨kept, shrunk⟩ := disposeRecord_spec counted entry head
        refine Evolves.trans ?_ (ih _ kept fun other member record found => ?_)
        · rw [disposeRecord]
          split
          · next completed done =>
              exact counted.evolves_complete done fun _ _ _ _ nothing => by cases nothing
          · next same declined =>
              rw [complete_declined declined]
              exact counted.evolves_remove _ _
        · rw [shrunk, OrderedMap.get?_delete] at found
          split at found
          · cases found
          · exact tail other member record found
  have marked : Accounted { registry with disposed := true } none :=
    ⟨accounted.bytes, accounted.count, accounted.index, accounted.bindings,
      accounted.bindingsMade, accounted.results, accounted.recordsMade⟩
  have cleared := run registry.executions.entries { registry with disposed := true } marked
    fun entry member record found => by
      rw [OrderedMap.get?_eq_some_iff.mpr member] at found
      rw [← Option.some.inj found]
  exact ⟨⟨cleared.recordsMade, cleared.old, cleared.new⟩, cleared.loansMade, cleared.lends⟩

/-- An operation that only its own registry sees keeps what is counted. -/
theorem localStep_spec (capture : Capture Invocation Value) (accounted : registry.Accounted none)
    {operation : Operation Key Invocation}
    (taken : System.localStep capture registry home operation = some after)
    : after.Accounted none ∧ Evolves home registry after := by
  cases operation with
  | reserve key executablePath scope =>
      simp only [System.localStep, Option.ite_none_left_eq_some] at taken
      obtain ⟨_, made⟩ := taken
      obtain rfl := Option.some.inj made
      exact ⟨accounted.reserve _ rfl rfl (add_zero _).symm,
        accounted.evolves_reserve ⟨rfl, rfl, rfl, rfl, rfl, .inl rfl⟩ rfl rfl rfl rfl⟩
  | complete key number summary =>
      simp only [System.localStep] at taken
      split at taken
      · next record found =>
          obtain ⟨here, named⟩ := Option.filter_eq_some_iff.mp found
          split at taken
          · next fits =>
              obtain rfl := Option.some.inj taken
              obtain ⟨running, fitting⟩ := fits
              obtain ⟨counted, evolves⟩ := accounted.publish home summary
              have same : (System.publish registry summary).1.executions = registry.executions := by
                cases summary <;> rfl
              have done : ((System.publish registry summary).1.complete key number
                  (System.publish registry summary).2).2 = true := by
                have still : (System.publish registry summary).1.record? key number
                    = some record := by
                  rw [record?, same, here]
                  exact Option.filter_eq_some_iff.mpr ⟨rfl, named⟩
                rw [Registry.complete, still]
                simp only [if_pos running]
              refine ⟨counted.complete (Prod.ext rfl done), evolves.trans
                (counted.evolves_complete (Prod.ext rfl done) fun other there => ?_)⟩
              rw [same, here] at there
              obtain rfl := Option.some.inj there
              intro result oneShot made known
              cases summary with
              | none => cases made
              | some summary =>
                  simp only [System.summaryFits, known, beq_iff_eq] at fitting
                  rw [← Option.some.inj made]
                  exact fitting.symm
          · cases taken
      · cases taken
  | observe key executablePath scope invocation executionMs =>
      obtain rfl := Option.some.inj taken
      exact ⟨accounted.observe capture invocation executionMs home key executablePath scope,
        accounted.evolves_observe capture invocation executionMs key executablePath scope⟩
  | bind key number invocation =>
      obtain rfl := Option.some.inj taken
      exact ⟨accounted.bind capture key invocation, accounted.evolves_bind capture invocation⟩
  | query key =>
      obtain rfl := Option.some.inj taken
      refine ⟨(accounted.candidates key).1, ?_⟩
      rw [candidates]
      simp only
      split
      · exact accounted.evolves_refl
      · exact accounted.evolves_same rfl rfl rfl (unchanged rfl)
  | remove key number =>
      simp only [System.localStep] at taken
      split at taken
      · next record found =>
          split at taken
          · next named =>
              obtain rfl := Option.some.inj taken
              refine ⟨accounted.remove fun other here => ?_, accounted.evolves_remove _ _⟩
              rw [found] at here
              rw [← Option.some.inj here]
              exact named
          · cases taken
      · next absent =>
          obtain rfl := Option.some.inj taken
          refine ⟨accounted.remove fun other here => ?_, accounted.evolves_remove _ _⟩
          rw [absent] at here
          cases here
  | configure maxCompleted maxRetainedBytes =>
      obtain rfl := Option.some.inj taken
      refine ⟨accounted.configure _ _, ?_⟩
      have limited : Evolves home registry
          { registry with maxCompleted := maxCompleted, maxRetainedBytes := maxRetainedBytes } :=
        accounted.evolves_same rfl rfl rfl (unchanged rfl)
      exact limited.trans ((sheds_trim _).evolves accounted.recordsMade)
  | clearCompleted =>
      obtain rfl := Option.some.inj taken
      exact ⟨accounted.clearCompleted, accounted.evolves_clearCompleted⟩
  | dispose =>
      obtain rfl := Option.some.inj taken
      exact ⟨accounted.dispose.1, accounted.evolves_dispose⟩
  | lend scope =>
      obtain rfl := Option.some.inj taken
      refine ⟨⟨accounted.bytes, accounted.count, accounted.index, accounted.bindings,
        accounted.bindingsMade, accounted.results, accounted.recordsMade⟩,
        accounted.evolves_same rfl rfl rfl ⟨_, rfl, fun entry member => ?_⟩⟩
      rw [List.mem_singleton.mp member]
  | _ => cases taken

end LocalSteps

end Registry

end SpeculativeAction.ProcessHandoff
