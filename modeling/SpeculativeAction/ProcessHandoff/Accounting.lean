import Mathlib.Algebra.Order.BigOperators.Group.List
import SpeculativeAction.ProcessHandoff.Registry

/-! What a registry counts is what its records hold: retained bytes, ended records, indexed keys,
available bindings, and results of which each is held by one record or was let go of once.
-/

namespace SpeculativeAction.ProcessHandoff

open SpeculativeAction.Library

variable {Key Value Invocation : Type}

-- Totals over records

section Totals

/-- What the records of a registry weigh together. -/
def total (weigh : Record Key → ℕ) (executions : OrderedMap ℕ (Record Key)) : ℕ :=
  (executions.values.map weigh).sum

variable {weigh : Record Key → ℕ} {executions : OrderedMap ℕ (Record Key)} {number : ℕ}
  {record : Record Key}

theorem total_set (weigh : Record Key → ℕ) (found : executions.get? number = some record)
    (next : Record Key)
    : total weigh (executions.set number next) + weigh record
      = total weigh executions + weigh next := by
  have balance := OrderedMap.sum_set weigh executions number next
  rwa [found] at balance

theorem total_set_fresh (weigh : Record Key → ℕ) (fresh : executions.get? number = none)
    (next : Record Key)
    : total weigh (executions.set number next) = total weigh executions + weigh next := by
  have balance := OrderedMap.sum_set weigh executions number next
  rwa [fresh] at balance

theorem total_delete (weigh : Record Key → ℕ) (found : executions.get? number = some record)
    : total weigh (executions.delete number) + weigh record = total weigh executions := by
  have balance := OrderedMap.sum_delete weigh executions number
  rwa [found] at balance

theorem total_congr {other : Record Key → ℕ}
    (same : ∀ record ∈ executions.values, weigh record = other record)
    : total weigh executions = total other executions := by
  rw [total, total, List.map_congr_left same]

theorem weigh_of_total_eq_zero (nothing : total weigh executions = 0)
    (member : record ∈ executions.values)
    : weigh record = 0 :=
  List.sum_eq_zero_iff.mp nothing _ (List.mem_map_of_mem member)

end Totals

-- What is counted

namespace Registry

variable [DecidableEq Key]

section Counted

def isEnded (record : Record Key) : ℕ := if record.state.isRunning then 0 else 1

def holdsBinding (number : ℕ) (record : Record Key) : ℕ :=
  if record.binding.map Binding.number = some number then 1 else 0

def holdsResult (number : ℕ) (record : Record Key) : ℕ :=
  if record.state.result?.map Result.number = some number then 1 else 0

/-- The bytes of a record's result and of its binding. -/
def recordBytes (invocations : ℕ → Option (Launch Value)) (record : Record Key) : ℕ :=
  bytesOf record.state.result? + bindingBytes invocations record

/-- The records of a key, in order. -/
def scan (executions : OrderedMap ℕ (Record Key)) (key : Key) : List ℕ :=
  (executions.entries.filter fun entry => entry.2.key = key).map Prod.fst

/-- The counters and indexes of a registry agree with its records, while a running call has a
result in hand or none.
-/
structure Accounted (registry : Registry Key Value) (inHand : Option ℕ) : Prop where
  bytes
    : registry.retainedBytes
      = total (recordBytes registry.invocations) registry.executions
  count : registry.completedCount = total isEnded registry.executions
  index
    : ∀ key records,
        registry.byKey.get? key = some records → records = scan registry.executions key
  bindings
    : ∀ number,
        total (holdsBinding number) registry.executions
          = if (registry.invocations number).isSome then 1 else 0
  bindingsMade : ∀ number, registry.bindingsMade ≤ number → registry.invocations number = none
  results
    : ∀ number,
        registry.released.count number + total (holdsResult number) registry.executions
            + inHand.toList.count number
          = if number < registry.resultsMade then 1 else 0
  recordsMade
    : ∀ number, registry.recordsMade ≤ number → registry.executions.get? number = none

theorem accounted_empty (maxCertificates maxBytes maxRetainedBytes : ℕ)
    : (Registry.empty maxCertificates maxBytes maxRetainedBytes : Registry Key Value).Accounted none where
  bytes := rfl
  count := rfl
  index _ _ found := by cases found
  bindings _ := rfl
  bindingsMade _ _ := rfl
  results _ := rfl
  recordsMade _ _ := rfl

end Counted

section Scans

variable {executions : OrderedMap ℕ (Record Key)} {number : ℕ} {record : Record Key}
  {key : Key}

theorem scan_eq (executions : OrderedMap ℕ (Record Key)) (key : Key)
    : scan executions key
      = ((executions.entries.map fun entry => (entry.1, entry.2.key)).filter
          fun entry => entry.2 = key).map Prod.fst := by
  rw [scan, List.filter_map, List.map_map]
  rfl

/-- A record that keeps its key is found in its place. -/
theorem scan_set (found : executions.get? number = some record) (next : Record Key)
    (same : next.key = record.key) (key : Key)
    : scan (executions.set number next) key = scan executions key := by
  rw [scan_eq, scan_eq, OrderedMap.map_entries_set found _ (by rw [same])]

/-- Records of other keys do not matter. -/
theorem scan_set_fresh (fresh : executions.get? number = none) (next : Record Key)
    (other : next.key ≠ key)
    : scan (executions.set number next) key = scan executions key := by
  have appended : (executions.set number next).entries = executions.entries ++ [(number, next)] :=
    OrderedMap.setEntries_of_fresh (OrderedMap.get?_eq_none_iff.mp fresh) next
  rw [scan, appended, List.filter_append, List.filter_cons_of_neg (by simpa using other)]
  simp [scan]

theorem scan_delete (other : ∀ record, executions.get? number = some record → record.key ≠ key)
    : scan (executions.delete number) key = scan executions key := by
  rw [scan, scan, OrderedMap.delete, List.filter_filter]
  congr 1
  refine List.filter_congr fun entry member => ?_
  by_cases same : entry.1 = number
  · have found : executions.get? number = some entry.2 :=
      OrderedMap.get?_eq_some_iff.mpr (same ▸ member)
    simp [other entry.2 found]
  · simp [same]

end Scans

-- Records are let go of

section Letting

variable {registry : Registry Key Value} {number : ℕ} {record next : Record Key} {key : Key}
  {inHand : Option ℕ}

theorem Accounted.made (accounted : registry.Accounted inHand)
    (found : registry.executions.get? number = some record)
    : number < registry.recordsMade := by
  by_contra above
  rw [accounted.recordsMade number (Nat.le_of_not_lt above)] at found
  cases found

/-- A change to one record, and where a record behind it comes from. -/
theorem Accounted.set_cases (accounted : registry.Accounted inHand)
    (found : registry.executions.get? number = some record) {other : ℕ} {left : Record Key}
    (here : (registry.executions.set number next).get? other = some left)
    : other < registry.recordsMade
      ∧ (other = number ∧ next = left ∨ registry.executions.get? other = some left) := by
  rw [OrderedMap.get?_set] at here
  split at here
  · next same => exact ⟨same ▸ accounted.made found, .inl ⟨same, Option.some.inj here⟩⟩
  · exact ⟨accounted.made here, .inr here⟩

theorem Accounted.unmade_set (accounted : registry.Accounted inHand)
    (found : registry.executions.get? number = some record) (next : Record Key) {other : ℕ}
    (unmade : registry.recordsMade ≤ other)
    : (registry.executions.set number next).get? other = none := by
  have different : other ≠ number := by
    rintro rfl
    exact absurd (accounted.made found) (Nat.not_lt.mpr unmade)
  rw [OrderedMap.get?_set, if_neg different]
  exact accounted.recordsMade other unmade

/-- A record that changes in nothing that is counted. -/
structure CountsAlike (record next : Record Key) : Prop where
  key : next.key = record.key
  running : next.state.isRunning = record.state.isRunning
  result : next.state.result? = record.state.result?
  binding : next.binding = record.binding

theorem Accounted.setRecord (accounted : registry.Accounted inHand)
    (found : registry.executions.get? number = some record) (alike : CountsAlike record next)
    : (registry.setRecord number next).Accounted inHand := by
  have kept (weigh : Record Key → ℕ) (same : weigh next = weigh record)
      : total weigh (registry.executions.set number next) = total weigh registry.executions := by
    have balance := total_set weigh found next
    omega
  constructor
  · refine accounted.bytes.trans (congrArg Nat.cast (kept _ ?_).symm)
    rw [recordBytes, recordBytes, bindingBytes, bindingBytes, alike.result, alike.binding]
  · refine accounted.count.trans (congrArg Nat.cast (kept _ ?_).symm)
    rw [isEnded, isEnded, alike.running]
  · intro key records listed
    rw [accounted.index key records listed]
    exact (scan_set found next alike.key key).symm
  · intro binding
    refine (kept _ ?_).trans (accounted.bindings binding)
    rw [holdsBinding, holdsBinding, alike.binding]
  · exact accounted.bindingsMade
  · intro result
    have same := kept (holdsResult result) (by rw [holdsResult, holdsResult, alike.result])
    have counted := accounted.results result
    rw [← same] at counted
    exact counted
  · exact fun other unmade => accounted.unmade_set found _ unmade

theorem Accounted.releaseResult (accounted : registry.Accounted inHand) (number : ℕ)
    : (registry.releaseResult number).Accounted inHand := by
  rw [Registry.releaseResult]
  split
  · next record found =>
      split
      · exact accounted
      · next status result ended =>
          have balance (weigh : Record Key → ℕ) := total_set weigh found
            { record with state := .ended .retained none }
          constructor
          · have bytes := balance (recordBytes registry.invocations)
            have was : recordBytes registry.invocations record
                = bytesOf result + bindingBytes registry.invocations record := by
              rw [recordBytes, ended]
              rfl
            have now : recordBytes registry.invocations
                { record with state := .ended .retained none }
                = bindingBytes registry.invocations record := Nat.zero_add _
            have counted := accounted.bytes
            simp only
            omega
          · have count := balance isEnded
            have was : isEnded record = 1 := by simp [isEnded, ended, HandoffState.isRunning]
            have now : isEnded { record with state := .ended .retained none } = 1 := rfl
            have counted := accounted.count
            simp only
            omega
          · intro key records listed
            rw [accounted.index key records listed]
            exact (scan_set found { record with state := .ended .retained none } rfl key).symm
          · intro binding
            have held := balance (holdsBinding binding)
            have same : holdsBinding binding { record with state := .ended .retained none }
                = holdsBinding binding record := rfl
            have counted := accounted.bindings binding
            simp only
            omega
          · exact accounted.bindingsMade
          · intro other
            have held := balance (holdsResult other)
            have was : holdsResult other record
                = (result.map Result.number).toList.count other := by
              rw [holdsResult, ended, HandoffState.result?]
              cases result with
              | none => rfl
              | some result => simp [List.count_singleton]
            have now : holdsResult other { record with state := .ended .retained none } = 0 := rfl
            have counted := accounted.results other
            simp only [List.count_append]
            omega
          · exact fun other unmade => accounted.unmade_set found _ unmade
  · exact accounted

omit [DecidableEq Key] in
/-- What was released has no result. -/
theorem result?_releaseResult
    (found : (registry.releaseResult number).executions.get? number = some record)
    : record.state.result? = none := by
  rw [Registry.releaseResult] at found
  split at found
  · next before here =>
      split at found
      · next running =>
          rw [here] at found
          obtain rfl := Option.some.inj found
          rw [running]
          rfl
      · rw [OrderedMap.get?_set, if_pos rfl] at found
        rw [← Option.some.inj found]
        rfl
  · next absent =>
      rw [absent] at found
      cases found

omit [DecidableEq Key] in
theorem key_releaseResult
    (found : (registry.releaseResult number).executions.get? number = some record)
    : ∃ before, registry.executions.get? number = some before ∧ record.key = before.key := by
  rw [Registry.releaseResult] at found
  split at found
  · next before here =>
      split at found
      · exact ⟨record, found, rfl⟩
      · rw [OrderedMap.get?_set, if_pos rfl] at found
        exact ⟨before, here, by rw [← Option.some.inj found]⟩
  · next absent =>
      rw [absent] at found
      cases found

/-- A record without a result leaves with its binding. -/
theorem Accounted.delete (accounted : registry.Accounted inHand)
    (found : registry.executions.get? number = some record) (empty : record.state.result? = none)
    : Accounted {
        registry.forgetBinding record with
        executions := (registry.forgetBinding record).executions.delete number
        completedCount :=
          if record.state.isRunning then (registry.forgetBinding record).completedCount
          else (registry.forgetBinding record).completedCount - 1
        byKey := (registry.forgetBinding record).byKey.delete record.key
      } inHand := by
  have balance (weigh : Record Key → ℕ) := total_delete weigh found
  have forgotten : registry.forgetBinding record =
      {
        registry with
        retainedBytes := registry.retainedBytes - bindingBytes registry.invocations record
        invocations := fun number =>
          if record.binding.map Binding.number = some number then none
          else registry.invocations number
      } := by
    rw [forgetBinding]
    congr 1
    funext number
    cases record.binding with
    | none => rfl
    | some binding =>
        simp only [Function.update_apply, Option.map_some, Option.some.injEq, eq_comm]
  have alone (binding : ℕ) (held : record.binding.map Binding.number = some binding)
      (other : Record Key) (member : other ∈ (registry.executions.delete number).values)
      : other.binding.map Binding.number ≠ some binding := by
    intro shared
    have one := accounted.bindings binding
    have parts := balance (holdsBinding binding)
    have here : holdsBinding binding record = 1 := if_pos held
    have rest : total (holdsBinding binding) (registry.executions.delete number) = 0 := by
      split at one <;> omega
    have none_ := weigh_of_total_eq_zero rest member
    rw [holdsBinding, if_pos shared] at none_
    cases none_
  rw [forgotten]
  constructor
  · have same : total (recordBytes fun number =>
        if record.binding.map Binding.number = some number then none
        else registry.invocations number) (registry.executions.delete number)
        = total (recordBytes registry.invocations) (registry.executions.delete number) := by
      refine total_congr fun other member => ?_
      rw [recordBytes, recordBytes, bindingBytes, bindingBytes]
      cases bound : other.binding with
      | none => rfl
      | some binding =>
          have apart := fun held => alone binding.number held other member (by rw [bound]; rfl)
          simp only [Option.bind_some, if_neg apart]
    have bytes := balance (recordBytes registry.invocations)
    have was : recordBytes registry.invocations record
        = bindingBytes registry.invocations record := by
      rw [recordBytes, empty]
      exact Nat.zero_add _
    have counted := accounted.bytes
    simp only [same]
    omega
  · have count := balance isEnded
    have counted := accounted.count
    simp only
    rw [isEnded] at count
    split
    · simp_all
    · simp_all
      omega
  · intro key records listed
    simp only [OrderedMap.get?_delete] at listed
    split at listed
    · cases listed
    · next other =>
        rw [accounted.index key records listed]
        refine (scan_delete fun same here => ?_).symm
        rw [found] at here
        rw [← Option.some.inj here]
        exact fun equal => other equal.symm
  · intro binding
    have held := balance (holdsBinding binding)
    have counted := accounted.bindings binding
    rw [holdsBinding] at held
    split at held
    · next mine =>
        simp only [if_pos mine, Option.isSome_none, Bool.false_eq_true, if_false]
        split at counted <;> omega
    · next others =>
        simp only [if_neg others]
        omega
  · intro binding unmade
    simp only
    split
    · rfl
    · exact accounted.bindingsMade binding unmade
  · intro result
    have held := balance (holdsResult result)
    have nothing : holdsResult result record = 0 := by simp [holdsResult, empty]
    have counted := accounted.results result
    simp only
    omega
  · intro other unmade
    have fresh := accounted.recordsMade other unmade
    rw [OrderedMap.get?_delete]
    split
    · rfl
    · exact fresh

/-- Forgetting an index does no harm. -/
theorem Accounted.unindex (accounted : registry.Accounted inHand) (key : Key)
    : Accounted { registry with byKey := registry.byKey.delete key } inHand where
  bytes := accounted.bytes
  count := accounted.count
  index other records listed := by
    rw [OrderedMap.get?_delete] at listed
    split at listed
    · cases listed
    · exact accounted.index other records listed
  bindings := accounted.bindings
  bindingsMade := accounted.bindingsMade
  results := accounted.results
  recordsMade := accounted.recordsMade

theorem Accounted.remove (accounted : registry.Accounted inHand)
    (named : ∀ record, registry.executions.get? number = some record → record.key = key)
    : (registry.remove number key).Accounted inHand := by
  have released := accounted.releaseResult number
  rw [Registry.remove]
  simp only
  split
  · next record found =>
      obtain ⟨before, here, same⟩ := key_releaseResult found
      have deleted := released.delete found (result?_releaseResult found)
      rw [same, named before here] at deleted
      exact deleted
  · exact released.unindex key

end Letting

-- Trimming

section Trimming

variable {before after registry : Registry Key Value} {number : ℕ} {key : Key}
  {inHand : Option ℕ} {entries : List (ℕ × Record Key)}

/-- Records were let go of: the others are as they were, and nothing was made. -/
structure Sheds (before after : Registry Key Value) : Prop where
  kept
    : ∀ number record,
        after.executions.get? number = some record → before.executions.get? number = some record
  maxCompleted : after.maxCompleted = before.maxCompleted
  maxRetainedBytes : after.maxRetainedBytes = before.maxRetainedBytes
  maxBytes : after.maxBytes = before.maxBytes
  disposed : after.disposed = before.disposed
  lends : after.lends = before.lends
  recordsMade : after.recordsMade = before.recordsMade
  resultsMade : after.resultsMade = before.resultsMade
  bindingsMade : after.bindingsMade = before.bindingsMade
  loansMade : after.loansMade = before.loansMade

omit [DecidableEq Key] in
theorem Sheds.refl (registry : Registry Key Value) : Sheds registry registry where
  kept _ _ found := found
  maxCompleted := rfl
  maxRetainedBytes := rfl
  maxBytes := rfl
  disposed := rfl
  lends := rfl
  recordsMade := rfl
  resultsMade := rfl
  bindingsMade := rfl
  loansMade := rfl

omit [DecidableEq Key] in
theorem Sheds.trans {middle : Registry Key Value} (first : Sheds before middle)
    (second : Sheds middle after)
    : Sheds before after where
  kept number record found := first.kept number record (second.kept number record found)
  maxCompleted := second.maxCompleted.trans first.maxCompleted
  maxRetainedBytes := second.maxRetainedBytes.trans first.maxRetainedBytes
  maxBytes := second.maxBytes.trans first.maxBytes
  disposed := second.disposed.trans first.disposed
  lends := second.lends.trans first.lends
  recordsMade := second.recordsMade.trans first.recordsMade
  resultsMade := second.resultsMade.trans first.resultsMade
  bindingsMade := second.bindingsMade.trans first.bindingsMade
  loansMade := second.loansMade.trans first.loansMade

omit [DecidableEq Key] in
theorem delete_releaseResult (registry : Registry Key Value) (number : ℕ)
    : (registry.releaseResult number).executions.delete number
      = registry.executions.delete number := by
  rw [Registry.releaseResult]
  split
  · split
    · rfl
    · exact OrderedMap.delete_set _ _ _
  · rfl

/-- What `remove` does to the records. -/
theorem executions_remove (registry : Registry Key Value) (number : ℕ) (key : Key)
    : (registry.remove number key).executions = registry.executions.delete number := by
  rw [Registry.remove]
  simp only
  split
  · exact delete_releaseResult registry number
  · next absent =>
      rw [← delete_releaseResult, OrderedMap.delete_of_get? absent]

theorem sheds_remove (registry : Registry Key Value) (number : ℕ) (key : Key)
    : Sheds registry (registry.remove number key) := by
  have kept := executions_remove registry number key
  constructor
  · intro other record found
    rw [kept, OrderedMap.get?_delete] at found
    split at found
    · cases found
    · exact found
  all_goals
    rw [Registry.remove, Registry.releaseResult]
    simp only [forgetBinding]
    repeat' split
    all_goals rfl

theorem sheds_trimRecords (limit : ℕ) (entries : List (ℕ × Record Key)) (stored : ℤ)
    (registry : Registry Key Value)
    : Sheds registry (trimRecords limit entries stored registry) := by
  induction entries generalizing stored registry with
  | nil => exact .refl registry
  | cons entry rest ih =>
      rw [trimRecords]
      split
      · exact .refl registry
      · split
        · exact (sheds_remove registry entry.1 entry.2.key).trans (ih _ _)
        · exact ih _ _

theorem sheds_trim (registry : Registry Key Value) : Sheds registry registry.trim :=
  sheds_trimRecords _ _ _ _

theorem Accounted.trimRecords (limit : ℕ) (stored : ℤ) (accounted : registry.Accounted inHand)
    (listed
      : ∀ entry ∈ entries, ∀ record,
          registry.executions.get? entry.1 = some record → record.key = entry.2.key)
    : (trimRecords limit entries stored registry).Accounted inHand := by
  induction entries generalizing stored registry with
  | nil => exact accounted
  | cons entry rest ih =>
      obtain ⟨head, tail⟩ := List.forall_mem_cons.mp listed
      rw [Registry.trimRecords]
      split
      · exact accounted
      · split
        · refine ih _ (accounted.remove head) fun other member record found => ?_
          exact tail other member record ((sheds_remove _ _ _).kept _ _ found)
        · exact ih _ accounted tail

theorem Accounted.trim (accounted : registry.Accounted inHand) : registry.trim.Accounted inHand := by
  refine accounted.trimRecords _ _ fun entry member record found => ?_
  rw [OrderedMap.get?_eq_some_iff.mpr member] at found
  rw [← Option.some.inj found]

/-- Nothing that could go is left. -/
def OnlyBorrowed (registry : Registry Key Value) : Prop :=
  ∀ number record,
    registry.executions.get? number = some record → record.state.isRunning = false
    → record.borrowers ≠ 0

/-- The loop ends within the limits, or has let go of everything it may. -/
theorem trimRecords_bounded (limit : ℕ) {stored : ℤ} (distinct : (entries.map Prod.fst).Nodup)
    (measured : stored = storedBytes registry.executions.values)
    (listed
      : ∀ entry ∈ entries, registry.executions.get? entry.1 = some entry.2)
    (passed
      : ∀ number record,
          registry.executions.get? number = some record
          → (number, record) ∈ entries
            ∨ (record.state.isRunning = false → record.borrowers ≠ 0))
    : let trimmed := trimRecords limit entries stored registry
      trimmed.withinLimits limit (storedBytes trimmed.executions.values) = true
        ∨ trimmed.OnlyBorrowed := by
  induction entries generalizing stored registry with
  | nil =>
      refine .inr fun number record found => ?_
      exact (passed number record found).resolve_left List.not_mem_nil
  | cons entry rest ih =>
      obtain ⟨fresh, distinct⟩ := List.nodup_cons.mp distinct
      obtain ⟨head, tail⟩ := List.forall_mem_cons.mp listed
      rw [Registry.trimRecords]
      split
      · next within =>
          rw [measured] at within
          exact .inl within
      · split
        · next free =>
            refine ih distinct ?_ ?_ ?_
            · rw [executions_remove, measured, storedBytes, storedBytes]
              have balance := OrderedMap.sum_delete
                (fun record => (artifactBytesOf record : ℤ)) registry.executions entry.1
              rw [head, Option.map_some, Option.getD_some] at balance
              omega
            · intro other member
              rw [executions_remove, OrderedMap.get?_delete, if_neg]
              · exact tail other member
              · exact fun same => fresh (same ▸ List.mem_map_of_mem member)
            · intro number record found
              rw [executions_remove, OrderedMap.get?_delete] at found
              split at found
              · cases found
              · next other =>
                  rcases passed number record found with member | borrowed
                  · refine .inl ((List.mem_cons.mp member).resolve_left fun same => ?_)
                    exact other (congrArg Prod.fst same)
                  · exact .inr borrowed
        · next kept =>
            refine ih distinct measured tail fun number record found => ?_
            rcases passed number record found with member | borrowed
            · rcases List.mem_cons.mp member with same | later
              · refine .inr fun ended idle => kept ?_
                rw [← same]
                exact ⟨idle, ended⟩
              · exact .inl later
            · exact .inr borrowed

/-- After a trim the three limits hold, or every ended record that is left is borrowed. -/
theorem trim_bounded (registry : Registry Key Value)
    : registry.trim.withinLimits registry.trim.maxCompleted
          (storedBytes registry.trim.executions.values) = true
        ∨ registry.trim.OnlyBorrowed := by
  rw [(sheds_trim registry).maxCompleted]
  refine trimRecords_bounded registry.maxCompleted registry.executions.distinct rfl
    (fun entry member => OrderedMap.get?_eq_some_iff.mpr member) fun number record found => ?_
  exact .inl (OrderedMap.get?_eq_some_iff.mp found)

end Trimming

-- Records come and complete

section Completion

variable {registry : Registry Key Value} {number : ℕ} {record : Record Key} {key : Key}
  {inHand : Option ℕ} {result : Option Result} {completed : Registry Key Value}

/-- A new record holds nothing; it counts when it is not running. -/
theorem Accounted.reserve (accounted : registry.Accounted inHand) (record : Record Key)
    (empty : record.state.result? = none) (unbound : record.binding = none) {count : ℤ}
    (counted : count = registry.completedCount + isEnded record)
    : Accounted { registry.reserve record with completedCount := count } inHand := by
  have fresh := accounted.recordsMade registry.recordsMade le_rfl
  have balance (weigh : Record Key → ℕ) := total_set_fresh weigh fresh record
  constructor
  · have bytes := balance (recordBytes registry.invocations)
    have weightless : recordBytes registry.invocations record = 0 := by
      rw [recordBytes, bindingBytes, empty, unbound]
      rfl
    have before := accounted.bytes
    simp only [Registry.reserve]
    omega
  · have ended := balance isEnded
    have before := accounted.count
    simp only [Registry.reserve]
    omega
  · intro other records listed
    simp only [Registry.reserve, OrderedMap.get?_delete] at listed
    split at listed
    · cases listed
    · next different =>
        rw [accounted.index other records listed]
        exact (scan_set_fresh fresh record fun same => different same.symm).symm
  · intro binding
    have held := balance (holdsBinding binding)
    have nothing : holdsBinding binding record = 0 := by simp [holdsBinding, unbound]
    rw [nothing] at held
    exact held.trans (accounted.bindings binding)
  · exact accounted.bindingsMade
  · intro result
    have held := balance (holdsResult result)
    have nothing : holdsResult result record = 0 := by simp [holdsResult, empty]
    rw [nothing, Nat.add_zero] at held
    refine Eq.trans ?_ (accounted.results result)
    simp only [Registry.reserve, held]
  · intro other unmade
    have later : registry.recordsMade + 1 ≤ other := unmade
    rw [Registry.reserve, OrderedMap.get?_set, if_neg (by omega)]
    exact accounted.recordsMade other (by omega)

/-- The result that a call has in hand becomes that of a running record. -/
theorem Accounted.fill (accounted : registry.Accounted (result.map Result.number))
    (found : registry.executions.get? number = some record)
    (running : record.state.isRunning = true)
    : (registry.fill number record result).Accounted none := by
  have unfinished : record.state = .running := by
    cases state : record.state with
    | running => rfl
    | ended status result =>
        rw [state] at running
        cases running
  have balance (weigh : Record Key → ℕ) := total_set weigh found
    { record with state := .ended .completed result }
  constructor
  · have bytes := balance (recordBytes registry.invocations)
    have was : recordBytes registry.invocations record
        = bindingBytes registry.invocations record := by
      rw [recordBytes, unfinished]
      exact Nat.zero_add _
    have now : recordBytes registry.invocations
        { record with state := .ended .completed result }
        = bytesOf result + bindingBytes registry.invocations record := rfl
    have before := accounted.bytes
    simp only [Registry.fill]
    omega
  · have ended := balance isEnded
    have was : isEnded record = 0 := by rw [isEnded, if_pos running]
    have now : isEnded { record with state := .ended .completed result } = 1 := rfl
    have before := accounted.count
    simp only [Registry.fill]
    omega
  · intro other records listed
    rw [accounted.index other records listed]
    exact (scan_set found { record with state := .ended .completed result } rfl other).symm
  · intro binding
    have held := balance (holdsBinding binding)
    have same : holdsBinding binding { record with state := .ended .completed result }
        = holdsBinding binding record := rfl
    refine Eq.trans ?_ (accounted.bindings binding)
    simp only [Registry.fill]
    omega
  · exact accounted.bindingsMade
  · intro other
    have held := balance (holdsResult other)
    have was : holdsResult other record = 0 := by
      rw [holdsResult, unfinished]
      rfl
    have now : holdsResult other { record with state := .ended .completed result }
        = (result.map Result.number).toList.count other := by
      rw [holdsResult, HandoffState.result?]
      cases result with
      | none => rfl
      | some result => simp [List.count_singleton]
    refine Eq.trans ?_ (accounted.results other)
    simp only [Registry.fill, Option.toList_none, List.count_nil]
    omega
  · exact fun other unmade => accounted.unmade_set found _ unmade

/-- Completing a running record: either it is gone, or the registry was trimmed. -/
theorem complete_spec (done : registry.complete key number result = (completed, true))
    : ∃ record,
        registry.executions.get? number = some record ∧ record.key = key
        ∧ record.state.isRunning = true
        ∧ completed
          = if result.isNone ∨ record.scope.isNone then
              (registry.fill number record result).remove number key
            else (registry.fill number record result).trim := by
  rw [complete] at done
  split at done
  · next record found =>
      obtain ⟨here, named⟩ := Option.filter_eq_some_iff.mp found
      split at done
      · next running =>
          exact ⟨record, here, of_decide_eq_true named, running, (Prod.mk.inj done).1.symm⟩
      · cases (Prod.mk.inj done).2
  · cases (Prod.mk.inj done).2

theorem complete_declined {same : Registry Key Value}
    (declined : registry.complete key number result = (same, false))
    : same = registry := by
  rw [complete] at declined
  split at declined
  · split at declined
    · cases (Prod.mk.inj declined).2
    · exact (Prod.mk.inj declined).1.symm
  · exact (Prod.mk.inj declined).1.symm

theorem Accounted.complete (accounted : registry.Accounted (result.map Result.number))
    (done : registry.complete key number result = (completed, true))
    : completed.Accounted none := by
  obtain ⟨record, found, named, running, rfl⟩ := complete_spec done
  have filled := accounted.fill found running
  split
  · refine filled.remove fun other here => ?_
    rw [Registry.fill, OrderedMap.get?_set, if_pos rfl] at here
    rw [← Option.some.inj here]
    exact named
  · exact filled.trim

theorem Accounted.candidates (accounted : registry.Accounted inHand) (key : Key)
    : (registry.candidates key).1.Accounted inHand
      ∧ (registry.candidates key).2 = scan registry.executions key := by
  have exact_ : (registry.byKey.get? key).getD (scan registry.executions key)
      = scan registry.executions key := by
    cases listed : registry.byKey.get? key with
    | none => rfl
    | some records => exact accounted.index key records listed
  refine ⟨?_, exact_⟩
  rw [Registry.candidates]
  simp only
  split
  · exact accounted
  · constructor
    · exact accounted.bytes
    · exact accounted.count
    · intro other records listed
      rw [OrderedMap.get?_set] at listed
      split at listed
      · next same =>
          rw [← Option.some.inj listed, same]
          exact exact_
      · exact accounted.index other records listed
    · exact accounted.bindings
    · exact accounted.bindingsMade
    · exact accounted.results
    · exact accounted.recordsMade

theorem Accounted.configure (accounted : registry.Accounted inHand)
    (maxCompleted maxRetainedBytes : ℕ)
    : (registry.configure maxCompleted maxRetainedBytes).Accounted inHand := by
  refine Accounted.trim ?_
  constructor
  · exact accounted.bytes
  · exact accounted.count
  · exact accounted.index
  · exact accounted.bindings
  · exact accounted.bindingsMade
  · exact accounted.results
  · exact accounted.recordsMade

theorem Accounted.clearCompleted (accounted : registry.Accounted inHand)
    : registry.clearCompleted.Accounted inHand := by
  have run (entries : List (ℕ × Record Key)) (start : Registry Key Value)
      (counted : start.Accounted inHand)
      (listed : ∀ entry ∈ entries, ∀ record,
        start.executions.get? entry.1 = some record → record.key = entry.2.key)
      : (entries.foldl clearRecord start).Accounted inHand := by
    induction entries generalizing start with
    | nil => exact counted
    | cons entry rest ih =>
        obtain ⟨head, tail⟩ := List.forall_mem_cons.mp listed
        rw [List.foldl_cons, clearRecord]
        split
        · exact ih start counted tail
        · exact ih _ (counted.remove head) fun other member record found =>
            tail other member record ((sheds_remove _ _ _).kept _ _ found)
  refine run _ registry accounted fun entry member record found => ?_
  rw [OrderedMap.get?_eq_some_iff.mpr member] at found
  rw [← Option.some.inj found]

theorem disposeRecord_spec (accounted : registry.Accounted none) (entry : ℕ × Record Key)
    (listed
      : ∀ record, registry.executions.get? entry.1 = some record → record.key = entry.2.key)
    : (registry.disposeRecord entry).Accounted none
      ∧ (registry.disposeRecord entry).executions = registry.executions.delete entry.1 := by
  rw [disposeRecord]
  split
  · next completed done =>
      refine ⟨accounted.complete done, ?_⟩
      obtain ⟨record, found, _, _, rfl⟩ := complete_spec done
      rw [if_pos (.inl rfl), executions_remove, fill, OrderedMap.delete_set]
  · next same declined =>
      rw [complete_declined declined]
      exact ⟨accounted.remove listed, executions_remove _ _ _⟩

theorem Accounted.disposeRecords (accounted : registry.Accounted none)
    : registry.disposeRecords.Accounted none
      ∧ registry.disposeRecords.executions.entries = [] := by
  have run (entries : List (ℕ × Record Key)) (start : Registry Key Value)
      (counted : start.Accounted none)
      (listed : ∀ entry ∈ entries, ∀ record,
        start.executions.get? entry.1 = some record → record.key = entry.2.key)
      : (entries.foldl disposeRecord start).Accounted none
        ∧ (entries.foldl disposeRecord start).executions
          = (entries.map Prod.fst).foldl OrderedMap.delete start.executions := by
    induction entries generalizing start with
    | nil => exact ⟨counted, rfl⟩
    | cons entry rest ih =>
        obtain ⟨head, tail⟩ := List.forall_mem_cons.mp listed
        obtain ⟨kept, shrunk⟩ := disposeRecord_spec counted entry head
        have later := ih (start.disposeRecord entry) kept fun other member record found => by
          rw [shrunk, OrderedMap.get?_delete] at found
          split at found
          · cases found
          · exact tail other member record found
        rw [shrunk] at later
        exact later
  obtain ⟨counted, emptied⟩ := run registry.executions.entries registry accounted
    fun entry member record found => by
      rw [OrderedMap.get?_eq_some_iff.mpr member] at found
      rw [← Option.some.inj found]
  have nobody : registry.disposeRecords.executions.keys = [] := by
    refine List.eq_nil_iff_forall_not_mem.mpr fun number left => ?_
    rw [Registry.disposeRecords, emptied] at left
    obtain ⟨gone, here⟩ := OrderedMap.mem_keys_deleteAll.mp left
    exact gone here
  exact ⟨counted, List.map_eq_nil_iff.mp nobody⟩

/-- Setting the count to zero changes nothing, for no record is left. -/
theorem Accounted.dispose (accounted : registry.Accounted none)
    : registry.dispose.Accounted none ∧ registry.dispose.executions.entries = [] := by
  have marked : Accounted { registry with disposed := true } none :=
    ⟨accounted.bytes, accounted.count, accounted.index, accounted.bindings,
      accounted.bindingsMade, accounted.results, accounted.recordsMade⟩
  obtain ⟨counted, nothing⟩ := marked.disposeRecords
  have zero := counted.count
  rw [total, OrderedMap.values, nothing] at zero
  have same : registry.dispose = Registry.disposeRecords { registry with disposed := true } := by
    rw [Registry.dispose, show (0 : ℤ) = _ from zero.symm]
  rw [same]
  exact ⟨counted, nothing⟩

end Completion

-- Bindings

section Bindings

variable {registry bound : Registry Key Value} {number : ℕ} {record : Record Key} {key : Key}
  {inHand : Option ℕ} {binding : Option (Binding Key)}

theorem Accounted.shareLaunch (accounted : registry.Accounted inHand)
    (named : ∀ record, registry.executions.get? number = some record → record.key = key)
    (own : record.key = key) (previous : Record Key) (executionMs : Number)
    : (registry.shareLaunch number record previous executionMs).1.Accounted inHand := by
  rw [Registry.shareLaunch]
  simp only
  refine Accounted.remove ?_ fun other found => ?_
  · split
    · next binding _ =>
        have alike (other : ℕ) :
            (Function.update registry.invocations binding.number
              ((registry.invocations binding.number).map fun launch =>
                { launch with executionMs := executionMs }) other).map Launch.bytes
            = (registry.invocations other).map Launch.bytes := by
          rw [Function.update_apply]
          split
          · next same =>
              rw [same, Option.map_map]
              rfl
          · rfl
        have present (other : ℕ) :
            (Function.update registry.invocations binding.number
              ((registry.invocations binding.number).map fun launch =>
                { launch with executionMs := executionMs }) other).isSome
            = (registry.invocations other).isSome := by
          have bytes := congrArg Option.isSome (alike other)
          rwa [Option.isSome_map, Option.isSome_map] at bytes
        constructor
        · refine accounted.bytes.trans (congrArg Nat.cast (total_congr fun other _ => ?_))
          rw [recordBytes, recordBytes, bindingBytes, bindingBytes]
          cases other.binding with
          | none => rfl
          | some binding => rw [Option.bind_some, Option.bind_some, alike]
        · exact accounted.count
        · exact accounted.index
        · intro other
          simp only [present]
          exact accounted.bindings other
        · intro other unmade
          have nothing := accounted.bindingsMade other unmade
          have same := present other
          rw [nothing] at same
          exact Option.isSome_eq_false_iff.mp same |> Option.isNone_iff_eq_none.mp
        · exact accounted.results
        · exact accounted.recordsMade
    · exact accounted
  · rw [own]
    refine named other ?_
    split at found
    · exact found
    · exact found

theorem Accounted.addLaunch (accounted : registry.Accounted inHand)
    (found : registry.executions.get? number = some record) (unbound : record.binding = none)
    (key : Key) (scope : ExecutionScope) (launch : Launch Value)
    : (registry.addLaunch number record ⟨registry.bindingsMade, key, scope⟩ launch).Accounted
        inHand := by
  have unmade := accounted.bindingsMade registry.bindingsMade le_rfl
  have nobody : total (holdsBinding registry.bindingsMade) registry.executions = 0 := by
    rw [accounted.bindings, unmade]
    rfl
  have balance (weigh : Record Key → ℕ) := total_set weigh found
    { record with binding := some ⟨registry.bindingsMade, key, scope⟩ }
  constructor
  · have others : total (recordBytes
        (Function.update registry.invocations registry.bindingsMade (some launch)))
        registry.executions = total (recordBytes registry.invocations) registry.executions := by
      refine total_congr fun other member => ?_
      rw [recordBytes, recordBytes, bindingBytes, bindingBytes]
      cases kept : other.binding with
      | none => rfl
      | some binding =>
          have apart : binding.number ≠ registry.bindingsMade := by
            intro same
            have none_ := weigh_of_total_eq_zero nobody member
            rw [holdsBinding, kept, Option.map_some, same, if_pos rfl] at none_
            cases none_
          rw [Option.bind_some, Option.bind_some, Function.update_of_ne apart]
    have bytes := balance (recordBytes
      (Function.update registry.invocations registry.bindingsMade (some launch)))
    have was : recordBytes
        (Function.update registry.invocations registry.bindingsMade (some launch)) record
        = bytesOf record.state.result? := by
      rw [recordBytes, bindingBytes, unbound]
      rfl
    have now : recordBytes
        (Function.update registry.invocations registry.bindingsMade (some launch))
        { record with binding := some ⟨registry.bindingsMade, key, scope⟩ }
        = bytesOf record.state.result? + launch.bytes := by
      rw [recordBytes, bindingBytes, Option.bind_some, Function.update_self]
      rfl
    have before := accounted.bytes
    simp only [Registry.addLaunch]
    omega
  · have ended := balance isEnded
    have same : isEnded { record with binding := some ⟨registry.bindingsMade, key, scope⟩ }
        = isEnded record := rfl
    have before := accounted.count
    simp only [Registry.addLaunch]
    omega
  · intro other records listed
    rw [accounted.index other records listed]
    exact (scan_set found
      { record with binding := some ⟨registry.bindingsMade, key, scope⟩ } rfl other).symm
  · intro other
    have held := balance (holdsBinding other)
    have was : holdsBinding other record = 0 := by simp [holdsBinding, unbound]
    have before := accounted.bindings other
    simp only [Registry.addLaunch, Function.update_apply]
    by_cases same : other = registry.bindingsMade
    · have now : holdsBinding other
          { record with binding := some ⟨registry.bindingsMade, key, scope⟩ } = 1 := by
        simp [holdsBinding, same]
      rw [same] at held was now ⊢
      simp only [if_pos, Option.isSome_some]
      omega
    · have now : holdsBinding other
          { record with binding := some ⟨registry.bindingsMade, key, scope⟩ } = 0 := by
        simp [holdsBinding, Ne.symm same]
      simp only [if_neg same]
      omega
  · intro other later
    have above : registry.bindingsMade + 1 ≤ other := later
    simp only [Registry.addLaunch]
    rw [Function.update_of_ne (by omega)]
    exact accounted.bindingsMade other (by omega)
  · intro other
    have held := balance (holdsResult other)
    have same : holdsResult other
        { record with binding := some ⟨registry.bindingsMade, key, scope⟩ }
        = holdsResult other record := rfl
    rw [same] at held
    refine Eq.trans ?_ (accounted.results other)
    simp only [Registry.addLaunch]
    omega
  · exact fun other unmade => accounted.unmade_set found _ unmade

variable (capture : Capture Invocation Value) (key : Key) (invocation : Invocation)
  (executionMs : Number)

theorem Accounted.retainBinding (accounted : registry.Accounted inHand)
    (found : registry.executions.get? number = some record)
    : (registry.retainBinding capture key number record invocation executionMs).1.Accounted
        inHand := by
  rw [Registry.retainBinding]
  split
  · next unbound _ =>
      split
      · exact accounted
      · simp only
        split
        · refine accounted.shareLaunch (fun other here => ?_) rfl _ _
          rw [found] at here
          rw [← Option.some.inj here]
        · exact (accounted.addLaunch found unbound _ _ _).trim
  · exact accounted

theorem Accounted.bind (accounted : registry.Accounted inHand)
    : (registry.bind capture key number invocation).1.Accounted inHand := by
  rw [Registry.bind]
  split
  · next record found =>
      have here := (Option.filter_eq_some_iff.mp found).1
      split
      · split
        · exact accounted.retainBinding capture key invocation _ here
        · exact accounted
      · exact accounted
  · exact accounted

/-- What a call of `retainBinding` can leave of the record that it was for. -/
theorem key_retainBinding {key : Key} (named : record.key = key)
    (found : registry.executions.get? number = some record) {left : Record Key}
    (still
      : (registry.retainBinding capture key number record invocation
          executionMs).1.executions.get? number = some left)
    : left.key = key := by
  have here {left : Record Key} (still : registry.executions.get? number = some left)
      : left.key = key := by
    rw [found] at still
    rw [← Option.some.inj still, named]
  rw [Registry.retainBinding] at still
  split at still
  · split at still
    · exact here still
    · simp only at still
      split at still
      · rw [Registry.shareLaunch, executions_remove, OrderedMap.get?_delete, if_pos rfl] at still
        cases still
      · rw [Registry.keepLaunch] at still
        have before := (sheds_trim _).kept _ _ still
        rw [addLaunch, OrderedMap.get?_set, if_pos rfl] at before
        rw [← Option.some.inj before]
        exact named
  · exact here still

theorem Accounted.observe (accounted : registry.Accounted inHand) (home : ℕ) (key : Key)
    (executablePath : String) (scope : ExecutionScope)
    : (Registry.observe capture home registry key executablePath scope invocation
        executionMs).1.Accounted inHand := by
  rw [Registry.observe]
  split
  · exact accounted
  · simp only
    have observed : (registry.reserveObserved
        (observedRecord home registry key executablePath scope)).Accounted inHand :=
      accounted.reserve _ rfl rfl rfl
    have found : (registry.reserveObserved (observedRecord home registry key executablePath
        scope)).executions.get? registry.recordsMade
        = some (observedRecord home registry key executablePath scope) := by
      rw [reserveObserved, Registry.reserve, OrderedMap.get?_set, if_pos rfl]
    split
    · next kept =>
        have bound := observed.retainBinding capture key invocation executionMs found
        rw [kept] at bound
        exact bound
    · next dropped =>
        have bound := observed.retainBinding capture key invocation executionMs found
        rw [dropped] at bound
        refine bound.remove fun left still => ?_
        refine key_retainBinding capture invocation executionMs rfl found ?_
        rw [← dropped] at still
        exact still

end Bindings

end Registry

end SpeculativeAction.ProcessHandoff
