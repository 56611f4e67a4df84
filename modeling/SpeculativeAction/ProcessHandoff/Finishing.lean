import SpeculativeAction.ProcessHandoff.Settling

/-! The end of a settlement: a one-shot result is restored, let go of, or handed over to a record
of the consumer's own.
-/

namespace SpeculativeAction.ProcessHandoff

open SpeculativeAction.Library

variable {Key Value : Type} [DecidableEq Key]

namespace Registry

-- Results that are handed over

section Handing

variable {registry : Registry Key Value} {home : ℕ} {hit : Hit} {record : Record Key}

/-- The record that replaces a consumed one, before it is completed. -/
def replacement (home : ℕ) (registry : Registry Key Value) (hit : Hit) (record : Record Key)
    (executablePath : String)
    : Record Key :=
  {
    newRecord home registry record.key executablePath hit.scope with
    binding := record.binding
    replaces := some hit.origin
  }

omit [DecidableEq Key] in
theorem isEnded_eq_one (ended : record.state.isRunning = false) : isEnded record = 1 := by
  rw [isEnded, ended]
  rfl

/-- The binding moves to the replacement and the result is in hand. -/
theorem Accounted.handOver (accounted : registry.Accounted none) (home : ℕ)
    (found : registry.executions.get? hit.record = some record)
    (state : record.state = .ended .reserved (some hit.result)) (executablePath : String)
    : (registry.handOver home hit record executablePath).Accounted (some hit.result.number) := by
  have unmade := accounted.recordsMade registry.recordsMade le_rfl
  have apart : hit.record ≠ registry.recordsMade := by
    intro same
    rw [same, unmade] at found
    cases found
  have balance (weigh : Record Key → ℕ)
      : total weigh (registry.handOver home hit record executablePath).executions + weigh record
        = total weigh registry.executions
          + weigh (replacement home registry hit record executablePath)
          + weigh { record with binding := none, state := .ended .retained none } := by
    have added := total_set_fresh weigh unmade
      (replacement home registry hit record executablePath)
    have still : (registry.executions.set registry.recordsMade
        (replacement home registry hit record executablePath)).get? hit.record = some record := by
      rw [OrderedMap.get?_set, if_neg apart, found]
    have changed := total_set weigh still
      { record with binding := none, state := .ended .retained none }
    exact changed.trans (by rw [added])
  constructor
  · have bytes := balance (recordBytes registry.invocations)
    have was : recordBytes registry.invocations record
        = hit.result.bytes + bindingBytes registry.invocations record := by
      rw [recordBytes, state]
      rfl
    have next : recordBytes registry.invocations
        (replacement home registry hit record executablePath)
        = bindingBytes registry.invocations record := Nat.zero_add _
    have left : recordBytes registry.invocations
        { record with binding := none, state := .ended .retained none } = 0 := rfl
    have before := accounted.bytes
    simp only [Registry.handOver, Registry.reserve] at bytes ⊢
    omega
  · have ended := balance isEnded
    have was : isEnded record = 1 := isEnded_eq_one (by rw [state]; rfl)
    have next : isEnded (replacement home registry hit record executablePath) = 0 := rfl
    have left : isEnded { record with binding := none, state := .ended .retained none } = 1 := rfl
    have before := accounted.count
    simp only [Registry.handOver, Registry.reserve] at ended ⊢
    omega
  · intro key records listed
    simp only [Registry.handOver, Registry.reserve, OrderedMap.get?_delete] at listed
    split at listed
    · cases listed
    · next different =>
        rw [accounted.index key records listed]
        have still : (registry.executions.set registry.recordsMade
            (replacement home registry hit record executablePath)).get? hit.record
            = some record := by
          rw [OrderedMap.get?_set, if_neg apart, found]
        refine ((scan_set still { record with binding := none, state := .ended .retained none } rfl
          key).trans (scan_set_fresh unmade _ ?_)).symm
        exact fun same => different same.symm
  · intro number
    have held := balance (holdsBinding number)
    have next : holdsBinding number (replacement home registry hit record executablePath)
        = holdsBinding number record := rfl
    have left : holdsBinding number
        { record with binding := none, state := .ended .retained none } = 0 := rfl
    refine Eq.trans ?_ (accounted.bindings number)
    omega
  · exact accounted.bindingsMade
  · intro number
    have held := balance (holdsResult number)
    have was : holdsResult number record = [hit.result.number].count number := by
      rw [holdsResult, state, HandoffState.result?]
      simp [List.count_singleton]
    have next : holdsResult number (replacement home registry hit record executablePath) = 0 := rfl
    have left : holdsResult number
        { record with binding := none, state := .ended .retained none } = 0 := rfl
    have before := accounted.results number
    rw [Option.toList_none, List.count_nil] at before
    rw [Option.toList_some, ← was]
    refine Eq.trans ?_ before
    simp only [Registry.handOver, Registry.reserve] at held ⊢
    omega
  · intro number above
    have later : registry.recordsMade + 1 ≤ number := above
    simp only [Registry.handOver, Registry.reserve]
    rw [OrderedMap.get?_set, if_neg, OrderedMap.get?_set, if_neg (by omega)]
    · exact accounted.recordsMade number (by omega)
    · intro same
      rw [← same, accounted.recordsMade number (by omega)] at found
      cases found

end Handing

-- What the end of a settlement does to records

section Finish

variable {before middle after registry : Registry Key Value} {home : ℕ} {hit : Hit}
  {record : Record Key} {consumed : Bool}

/-- A settlement changes the state of its own record, and makes at most one that replaces it. -/
structure Finishes (home : ℕ) (hit : Hit) (consumed : Bool) (before after : Registry Key Value)
    : Prop extends Settles home before after where
  states
    : ∀ number record,
        after.executions.get? number = some record → number < before.recordsMade
        → ∃ previous,
            before.executions.get? number = some previous
            ∧ (record.state = previous.state
              ∨ number = hit.record ∧ hit.result.oneShot = true)
  released
    : hit.result.oneShot = true → consumed = true
      → ∀ record,
          after.executions.get? hit.record = some record → record.state.result? = none
  replaces
    : ∀ number record,
        after.executions.get? number = some record → before.recordsMade ≤ number
        → record.replaces ≠ none
        → number = before.recordsMade ∧ record.replaces = some hit.origin ∧ consumed = true
          ∧ hit.result.oneShot = true

omit [DecidableEq Key] in
theorem Finishes.sheds (finishes : Finishes home hit consumed before middle)
    (sheds : Sheds middle after)
    : Finishes home hit consumed before after where
  toSettles := finishes.toSettles.sheds sheds
  states number record found := finishes.states number record (sheds.kept number record found)
  released oneShot used record found :=
    finishes.released oneShot used record (sheds.kept _ record found)
  replaces number record found := finishes.replaces number record (sheds.kept number record found)

/-- A settlement that leaves every record as it is. -/
theorem Accounted.finishes_none (accounted : registry.Accounted none)
    (nothing : hit.result.oneShot = true → registry.executions.get? hit.record = none)
    : Finishes home hit consumed registry registry where
  toSettles := accounted.settles_refl
  states number record found _ := ⟨record, found, .inl rfl⟩
  released oneShot _ record found := by
    rw [nothing oneShot] at found
    cases found
  replaces number record found above := by
    rw [accounted.recordsMade number above] at found
    cases found

/-- The record of a one-shot claim changes. -/
theorem Accounted.finishes_set (accounted : registry.Accounted none)
    (found : registry.executions.get? hit.record = some record)
    (oneShot : hit.result.oneShot = true) (after : Registry Key Value) (next : Record Key)
    (spends : Spends record next) (reservation : next.claimState = record.claimState)
    (released : consumed = true → next.state.result? = none)
    (changed : after.executions = registry.executions.set hit.record next)
    (made : after.recordsMade = registry.recordsMade)
    (loans : after.loansMade = registry.loansMade) (lends : after.lends = registry.lends)
    : Finishes home hit consumed registry after where
  toSettles := accounted.settles_set found after next spends reservation changed made loans lends
  states number left here _ := by
    rcases (accounted.set_cases found (changed ▸ here)).2 with ⟨rfl, rfl⟩ | before
    · exact ⟨record, found, .inr ⟨rfl, oneShot⟩⟩
    · exact ⟨left, before, .inl rfl⟩
  released _ used left here := by
    rw [changed, OrderedMap.get?_set, if_pos rfl] at here
    rw [← Option.some.inj here]
    exact released used
  replaces number left here above :=
    absurd (accounted.set_cases found (changed ▸ here)).1 (Nat.not_lt.mpr above)

/-- What the registry is left with when its result was handed over: the consumed record is gone,
and its replacement was completed, then perhaps let go of.
-/
theorem forward_spec (accounted : registry.Accounted none) (home : ℕ)
    (found : registry.executions.get? hit.record = some record)
    (state : record.state = .ended .reserved (some hit.result)) (executablePath : String)
    : (registry.forward home hit record executablePath).Accounted none
      ∧ ∃ filled : Registry Key Value,
          Sheds filled (registry.forward home hit record executablePath)
          ∧ filled.executions
            = ((registry.handOver home hit record executablePath).executions.delete
                hit.record).set registry.recordsMade
                { replacement home registry hit record executablePath with
                  state := .ended .completed (some hit.result) }
          ∧ filled.recordsMade = registry.recordsMade + 1
          ∧ filled.loansMade = registry.loansMade ∧ filled.lends = registry.lends := by
  have unmade := accounted.recordsMade registry.recordsMade le_rfl
  have apart : registry.recordsMade ≠ hit.record := by
    intro same
    rw [← same, unmade] at found
    cases found
  have left : (registry.handOver home hit record executablePath).executions.get? hit.record
      = some { record with binding := none, state := .ended .retained none } := by
    simp only [Registry.handOver]
    rw [OrderedMap.get?_set, if_pos rfl]
  have handed := accounted.handOver home found state executablePath
  have moved := handed.remove fun other here => by
    rw [left] at here
    rw [← Option.some.inj here]
  have waiting : ((registry.handOver home hit record executablePath).remove hit.record
      record.key).executions.get? registry.recordsMade
      = some (replacement home registry hit record executablePath) := by
    rw [executions_remove, OrderedMap.get?_delete, if_neg apart]
    simp only [Registry.handOver, Registry.reserve]
    rw [OrderedMap.get?_set, if_neg apart, OrderedMap.get?_set, if_pos rfl]
    rfl
  have shed := sheds_remove (registry.handOver home hit record executablePath) hit.record
    record.key
  obtain ⟨completed, done⟩
      : ∃ completed, ((registry.handOver home hit record executablePath).remove hit.record
          record.key).complete record.key registry.recordsMade (some hit.result)
          = (completed, true) := by
    rw [Registry.complete, record?, waiting]
    simp only [Option.filter, replacement, newRecord, HandoffState.isRunning, decide_true, if_true]
    exact ⟨_, rfl⟩
  have same : registry.forward home hit record executablePath = completed := by
    rw [Registry.forward]
    simp only [done]
  rw [same]
  refine ⟨moved.complete done, ?_⟩
  obtain ⟨next, here, _, _, rfl⟩ := complete_spec done
  obtain rfl := Option.some.inj (waiting.symm.trans here)
  refine ⟨((registry.handOver home hit record executablePath).remove hit.record record.key).fill
    registry.recordsMade (replacement home registry hit record executablePath) (some hit.result),
    ?_, ?_, shed.recordsMade, shed.loansMade, shed.lends⟩
  · split
    · exact sheds_remove _ _ _
    · exact sheds_trim _
  · simp only [fill]
    rw [executions_remove]

theorem finishes_forward (accounted : registry.Accounted none)
    (found : registry.executions.get? hit.record = some record)
    (oneShot : hit.result.oneShot = true)
    (state : record.state = .ended .reserved (some hit.result)) (executablePath : String)
    : Finishes home hit true registry (registry.forward home hit record executablePath) := by
  obtain ⟨_, filled, sheds, executions, made, loans, lends⟩ :=
    forward_spec accounted home found state executablePath
  have apart : hit.record ≠ registry.recordsMade := by
    intro same
    rw [same, accounted.recordsMade _ le_rfl] at found
    cases found
  -- A record that is left is the replacement, or an old one that is not the consumed one.
  have parts {number : ℕ} {left : Record Key} (here : filled.executions.get? number = some left)
      : number = registry.recordsMade
          ∧ left = { replacement home registry hit record executablePath with
              state := .ended .completed (some hit.result) }
        ∨ number ≠ registry.recordsMade ∧ number ≠ hit.record
          ∧ registry.executions.get? number = some left := by
    rw [executions, OrderedMap.get?_set] at here
    split at here
    · next same => exact .inl ⟨same, (Option.some.inj here).symm⟩
    · next different =>
        rw [OrderedMap.get?_delete] at here
        split at here
        · cases here
        · next other =>
            simp only [Registry.handOver, Registry.reserve] at here
            rw [OrderedMap.get?_set, if_neg other, OrderedMap.get?_set, if_neg different] at here
            exact .inr ⟨different, other, here⟩
  refine Finishes.sheds ?_ sheds
  refine ⟨⟨⟨made ▸ Nat.le_succ _, loans, lends, ?_, ?_⟩, ?_⟩, ?_, ?_, ?_⟩
  · intro number left here below
    rcases parts here with ⟨same, _⟩ | ⟨_, _, there⟩
    · omega
    · exact ⟨left, there, .refl left⟩
  · intro number left here above
    rcases parts here with ⟨same, rfl⟩ | ⟨_, _, there⟩
    · rw [same, made]
      exact ⟨Nat.lt_succ_self _, rfl, rfl, rfl, rfl⟩
    · rw [accounted.recordsMade number above] at there
      cases there
  · intro number left previous here was
    rcases parts here with ⟨same, _⟩ | ⟨_, _, there⟩
    · rw [same, accounted.recordsMade _ le_rfl] at was
      cases was
    · rw [Option.some.inj (there.symm.trans was)]
  · intro number left here below
    rcases parts here with ⟨same, _⟩ | ⟨_, _, there⟩
    · omega
    · exact ⟨left, there, .inl rfl⟩
  · intro _ _ left here
    rcases parts here with ⟨same, _⟩ | ⟨_, other, _⟩
    · exact absurd same apart
    · exact absurd rfl other
  · intro number left here above replaces
    rcases parts here with ⟨same, rfl⟩ | ⟨_, _, there⟩
    · exact ⟨same, rfl, rfl, oneShot⟩
    · rw [accounted.recordsMade number above] at there
      cases there

omit [DecidableEq Key] in
theorem Spends.ended {next : Record Key} {status : HandoffStatus} {result : Option Result}
    (lineage : SameLineage record next) (before : record.state = .ended status result)
    {later : HandoffStatus} {left : Option Result} (after : next.state = .ended later left)
    (kept : left = result ∨ left = none)
    : Spends record next where
  receipts := lineage.receipts
  imported := lineage.imported
  origin := lineage.origin
  replaces := lineage.replaces
  running := by
    rw [before, after]
    rfl
  result := by
    rw [before, after]
    exact kept

/-- The end of a settlement whose one-shot result is still reserved where it is. -/
theorem finish_spec (accounted : registry.Accounted none) (home : ℕ) (hit : Hit)
    (consumed : Bool)
    (reserved
      : hit.result.oneShot = true
        → ∀ record,
            registry.executions.get? hit.record = some record
            → record.state = .ended .reserved (some hit.result))
    (forwarded : Bool)
    : (registry.finish home hit consumed forwarded).Accounted none
      ∧ Finishes home hit consumed registry (registry.finish home hit consumed forwarded) := by
  rw [Registry.finish]
  suffices settled : ∀ settled : Registry Key Value,
      settled.Accounted none ∧ Finishes home hit consumed registry settled
      → settled.trim.Accounted none ∧ Finishes home hit consumed registry settled.trim by
    refine settled _ ?_
    split
    · next record found =>
        split
        · next oneShot =>
            have state := reserved oneShot record found
            split
            · next used =>
                subst used
                split
                · next _ _ executablePath _ =>
                    exact ⟨(forward_spec accounted home found state executablePath).1,
                      finishes_forward accounted found oneShot state executablePath⟩
                · refine ⟨accounted.releaseResult hit.record, ?_⟩
                  refine accounted.finishes_set found oneShot _
                    { record with state := .ended .retained none }
                    (.ended ⟨rfl, rfl, rfl, rfl, rfl⟩ state rfl (.inr rfl)) rfl (fun _ => rfl)
                    ?_ ?_ ?_ ?_
                  all_goals
                    rw [Registry.releaseResult, found]
                    simp only [state]
            · next unused =>
                refine ⟨accounted.setRecord found ⟨rfl, ?_, ?_, rfl⟩, ?_⟩
                · rw [state]
                  rfl
                · rw [state]
                  rfl
                · exact accounted.finishes_set found oneShot _
                    { record with state := .ended .completed (some hit.result) }
                    (.ended ⟨rfl, rfl, rfl, rfl, rfl⟩ state rfl (.inl rfl)) rfl
                    (fun used => absurd used unused) rfl rfl rfl rfl
        · next reusable => exact ⟨accounted, accounted.finishes_none fun used => absurd used reusable⟩
    · next absent => exact ⟨accounted, accounted.finishes_none fun _ => absent⟩
  rintro settled ⟨counted, finishes⟩
  exact ⟨counted.trim, finishes.sheds (sheds_trim settled)⟩

end Finish

end Registry

end SpeculativeAction.ProcessHandoff
