import SpeculativeAction.ProcessHandoff.Finishing

/-! A claim and its settlement, step by step: each step of a thread keeps what holds between
records, hits, loans and words.
-/

namespace SpeculativeAction.ProcessHandoff

open SpeculativeAction.Library

variable {Key Value : Type}

-- One registry changes, one claim is added

section Adding

variable {registries : ℕ → Registry Key Value} {words : Name → Option ClaimWord}
  {loans : Name → LoanWord} {transfers : List (LentResult Key)} {hits : List Hit}
  {tasks : ℕ → Task} {index : ℕ} {hit new : Hit}
  {registry : Registry Key Value} {home : ℕ} {system : System Key Value}

theorem Linear.accounting [DecidableEq Key] (linear : Linear system) (one : registry.Accounted none)
    (other : ℕ)
    : (Function.update system.registries home registry other).Accounted none := by
  rw [Function.update_apply]
  split
  · exact one
  · exact linear.accounted other

theorem Linear.settling [DecidableEq Key] (linear : Linear system)
    (one : Registry.Settles home (system.registries home) registry) (other : ℕ)
    : Registry.Settles other (system.registries other)
        (Function.update system.registries home registry other) := by
  rw [Function.update_apply]
  split
  · next same => exact same ▸ one
  · exact (linear.accounted other).settles_refl

/-- Records that stay in their state in every registry but one, and there but for one. -/
theorem states_update {number : ℕ}
    (one
      : ∀ place record,
          registry.executions.get? place = some record
          → place < (registries home).recordsMade
          → ∃ previous,
              (registries home).executions.get? place = some previous
              ∧ (record.state = previous.state ∨ place = number))
    (other place : ℕ) (record : Record Key)
    (found : (Function.update registries home registry other).executions.get? place = some record)
    (below : place < (registries other).recordsMade)
    : ∃ previous,
        (registries other).executions.get? place = some previous
        ∧ (record.state = previous.state ∨ other = home ∧ place = number) := by
  rw [Function.update_apply] at found
  split at found
  · next same =>
      subst same
      obtain ⟨previous, there, state⟩ := one place record found below
      exact ⟨previous, there, state.imp_right fun same => ⟨rfl, same⟩⟩
  · exact ⟨record, found, .inl rfl⟩

theorem Task.hit?_of_idle [DecidableEq Key] (idle : system.isIdle home = true)
    : (system.tasks home).hit? = none ∧ ∀ loan, ¬ (system.tasks home).isQueued loan := by
  obtain ⟨_, resting⟩ := Bool.and_eq_true_iff.mp ((Bool.decide_and _ _).symm.trans idle)
  rw [of_decide_eq_true resting]
  exact ⟨rfl, fun loan waiting => absurd waiting List.not_mem_nil⟩

theorem Task.not_queued_of_hit? {task : Task} (named : task.hit? = some index) (loan : Loan)
    : ¬ task.isQueued loan := by
  intro waiting
  cases task with
  | settlingLoans loans => cases named
  | _ => exact waiting

/-- A thread that had no loans to release takes up another task. -/
theorem queued_update (nothing : ∀ loan, ¬ (tasks home).isQueued loan) (task : Task) (other : ℕ)
    (loan : Loan) (waiting : (tasks other).isQueued loan)
    : (Function.update tasks home task other).isQueued loan := by
  rw [Function.update_apply]
  split
  · next same => exact absurd waiting (same ▸ nothing loan)
  · exact waiting

/-- Records change and none is made. -/
theorem Forwarded.eases [DecidableEq Key] {after : ℕ → Registry Key Value}
    (forwarded : Forwarded registries hits)
    (eases : ∀ home, Registry.Eases home (registries home) (after home))
    (accounted : ∀ home, (after home).Accounted none)
    (made : ∀ home, (after home).recordsMade = (registries home).recordsMade)
    : Forwarded after hits := by
  refine forwarded.still fun home number record found _ => ?_
  by_cases below : number < (registries home).recordsMade
  · obtain ⟨previous, there, spends⟩ := (eases home).old number record found below
    exact ⟨previous, there, spends.replaces⟩
  · rw [(accounted home).recordsMade number ((made home).trans_le (Nat.le_of_not_lt below))]
      at found
    cases found

theorem made_update (made : registry.recordsMade = (registries home).recordsMade) (other : ℕ)
    : (Function.update registries home registry other).recordsMade
      = (registries other).recordsMade := by
  rw [Function.update_apply]
  split
  · next same => rw [made, same]
  · rfl

theorem of_get?_append (here : (hits ++ [new])[index]? = some hit)
    : index = hits.length ∧ hit = new ∨ hits[index]? = some hit := by
  by_cases bound : index < hits.length
  · rw [List.getElem?_append_left bound] at here
    exact .inr here
  · rw [List.getElem?_append_right (Nat.le_of_not_lt bound)] at here
    obtain ⟨at_, same⟩ := List.getElem?_eq_some_iff.mp here
    rw [List.length_singleton] at at_
    exact .inl ⟨by omega, by rw [← same, List.getElem_singleton]⟩

theorem get?_append (there : hits[index]? = some hit) (new : Hit)
    : (hits ++ [new])[index]? = some hit := by
  obtain ⟨bound, _⟩ := List.getElem?_eq_some_iff.mp there
  rw [List.getElem?_append_left bound, there]

theorem index_lt (there : hits[index]? = some hit) : index < hits.length :=
  (List.getElem?_eq_some_iff.mp there).1

theorem Exclusive.append (exclusive : Exclusive words hits) (tied : HitTied words new)
    (alone
      : new.isActive = true
        → ∀ (index : ℕ) hit,
            hits[index]? = some hit → hit.isActive = true → hit.origin ≠ new.origin)
    : Exclusive words (hits ++ [new]) where
  tied index hit here := by
    rcases of_get?_append here with ⟨_, rfl⟩ | there
    · exact tied
    · exact exclusive.tied index hit there
  alone first second left right leftHere rightHere leftActive rightActive version := by
    rcases of_get?_append leftHere with ⟨leftLast, rfl⟩ | leftThere
    · rcases of_get?_append rightHere with ⟨rightLast, rfl⟩ | rightThere
      · rw [leftLast, rightLast]
      · exact absurd version.symm (alone leftActive second right rightThere rightActive)
    · rcases of_get?_append rightHere with ⟨rightLast, rfl⟩ | rightThere
      · exact absurd version (alone rightActive first left leftThere leftActive)
      · exact exclusive.alone first second left right leftThere rightThere leftActive rightActive
          version

theorem Lent.append (lent : Lent registries words transfers hits tasks)
    (loans
      : ∀ loan ∈ new.receipts,
          LentOf transfers loan new.origin new.result.oneShot ⟨new.registry, new.record⟩)
    : Lent registries words transfers (hits ++ [new]) tasks :=
  {
    lent with
    hits := fun index hit here loan member => by
      rcases of_get?_append here with ⟨_, rfl⟩ | there
      · exact loans loan member
      · exact lent.hits index hit there loan member
  }

theorem Forwarded.append (forwarded : Forwarded registries hits) (new : Hit)
    : Forwarded registries (hits ++ [new]) where
  consumed home number record origin found replaces := by
    obtain ⟨index, hit, there, facts⟩ := forwarded.consumed home number record origin found
      replaces
    exact ⟨index, hit, get?_append there new, facts⟩
  single := forwarded.single

/-- A claim on a record whose result no unsettled claim has reserved. -/
theorem Placed.append (placed : Placed registries hits) {record : Record Key}
    (found : (registries new.registry).executions.get? new.record = some record)
    (made : new.record < (registries new.registry).recordsMade)
    (ended : record.state.isRunning = false) (version : record.origin = new.origin)
    (reserved : new.result.oneShot = true → record.state = .ended .reserved (some new.result))
    (staged : new.stage = .claiming)
    (free
      : ∀ (index : ℕ) hit,
          hits[index]? = some hit → hit.registry = new.registry → hit.record = new.record
          → hit.result.oneShot = true → hit.stage.isSettled = true)
    : Placed registries (hits ++ [new]) := by
  have same {left : Record Key}
      (here : (registries new.registry).executions.get? new.record = some left)
      : left = record := by
    rw [found] at here
    exact (Option.some.inj here).symm
  constructor
  · intro index hit here
    rcases of_get?_append here with ⟨_, rfl⟩ | there
    · exact made
    · exact placed.made index hit there
  · intro index hit left here still
    rcases of_get?_append here with ⟨_, rfl⟩ | there
    · rw [same still]
      exact ⟨ended, version⟩
    · exact placed.ended index hit left there still
  · intro index hit left here oneShot unsettled still
    rcases of_get?_append here with ⟨_, rfl⟩ | there
    · rw [same still]
      exact reserved oneShot
    · exact placed.reserved index hit left there oneShot unsettled still
  · intro index hit left here oneShot settled unshared still
    rcases of_get?_append here with ⟨_, rfl⟩ | there
    · rw [staged] at settled
      cases settled
    · exact placed.spent index hit left there oneShot settled unshared still
  · intro first second left right leftHere rightHere leftOnce rightOnce leftStill rightStill
      registry record
    rcases of_get?_append leftHere with ⟨leftLast, rfl⟩ | leftThere
    · rcases of_get?_append rightHere with ⟨rightLast, rfl⟩ | rightThere
      · rw [leftLast, rightLast]
      · rw [free second right rightThere registry.symm record.symm rightOnce] at rightStill
        cases rightStill
    · rcases of_get?_append rightHere with ⟨rightLast, rfl⟩ | rightThere
      · rw [free first left leftThere registry record leftOnce] at leftStill
        cases leftStill
      · exact placed.alone first second left right leftThere rightThere leftOnce rightOnce
          leftStill rightStill registry record

/-- A thread that is in no call begins a claim. -/
theorem Working.append (working : Working tasks hits loans) (new : Hit)
    (idle : (tasks new.registry).hit? = none) (staged : new.stage = .claiming)
    (held : new.held = []) (granted : new.granted = false)
    : Working (Function.update tasks new.registry (.claiming hits.length new.receipts))
        (hits ++ [new]) loans := by
  have last : (hits ++ [new])[hits.length]? = some new := by simp
  constructor
  · intro home index named
    rw [Function.update_apply] at named
    split at named
    · next same =>
        obtain rfl := Option.some.inj named
        exact ⟨new, last, same.symm⟩
    · obtain ⟨hit, there, registry⟩ := working.named home index named
      exact ⟨hit, get?_append there new, registry⟩
  · intro index hit here
    rcases of_get?_append here with ⟨rfl, rfl⟩ | there
    · rw [Function.update_self]
      constructor
      · exact fun _ => ⟨hit.receipts, rfl⟩
      · intro consumed stage
        rw [staged] at stage
        cases stage
      · intro consumed stage
        rw [staged] at stage
        cases stage
      · intro receipts same
        injection same with _ same
        exact ⟨staged, granted, by rw [held, List.nil_append, same]⟩
      · intro forward marks same
        cases same
      · intro forward same
        cases same
      · intro stage
        rw [staged] at stage
        cases stage
      · intro loan member
        rw [held] at member
        cases member
      · intro left
        rw [staged] at left
        cases left
    · have old := working.attended index hit there
      have before := index_lt there
      rw [Function.update_apply]
      split
      · next same =>
          rw [same] at old
          refine old.elsewhere (by rw [idle]; nofun) (fun named => ?_) fun _ used => used
          exact before.ne (Option.some.inj named).symm
      · exact old
  · intro loan
    rw [working.readers loan, List.map_append, List.sum_append]
    simp [held]
  · intro loan used
    obtain ⟨index, hit, there, facts⟩ := working.consumers loan used
    exact ⟨index, hit, get?_append there new, facts⟩

end Adding

-- Claims begin

section Beginning

variable {registries : ℕ → Registry Key Value} {words : Name → Option ClaimWord}
  {transfers : List (LentResult Key)} {hits : List Hit} {tasks : ℕ → Task} {home number : ℕ}
  {record : Record Key} {result : Result} {index : ℕ} {hit : Hit}

/-- No claim has a completed result or has used it. -/
theorem Placed.free (placed : Placed registries hits)
    (found : (registries home).executions.get? number = some record)
    (state : record.state = .ended .completed (some result)) (here : hits[index]? = some hit)
    (registry : hit.registry = home) (place : hit.record = number)
    (oneShot : hit.result.oneShot = true)
    : hit.stage.isSettled = true ∧ (hit.stage = .settled true → hit.claimState ≠ none) := by
  rw [← registry, ← place] at found
  constructor
  · by_contra unsettled
    have reserved := placed.reserved index hit record here oneShot (Bool.eq_false_iff.mpr unsettled)
      found
    rw [state] at reserved
    cases reserved
  · intro settled unshared
    have spent := placed.spent index hit record here oneShot settled unshared found
    rw [state] at spent
    cases spent

/-- The completed result of a record with no reservation was made for that record. -/
theorem RecordTied.made_here (tied : RecordTied words home number record)
    (state : record.state = .ended .completed (some result)) (oneShot : result.oneShot = true)
    (unshared : record.claimState = none)
    : record.imported = none ∧ record.origin = ⟨home, number⟩
      ∧ words ⟨home, number⟩ = none := by
  have own : record.imported = none := by
    cases imported : record.imported with
    | none => rfl
    | some kind =>
        have known := tied.kind kind result imported (by rw [state]; rfl)
        rw [oneShot] at known
        have shared := tied.shares (imported.trans (by rw [known]))
        rw [unshared] at shared
        cases shared
  refine ⟨own, tied.own own, by_contra fun made => ?_⟩
  rw [tied.allocated made] at unshared
  cases unshared

/-- A result whose record has no reservation to share is in no claim. -/
theorem Exclusive.unreserved (exclusive : Exclusive words hits) (placed : Placed registries hits)
    (found : (registries home).executions.get? number = some record)
    (state : record.state = .ended .completed (some result)) (unmade : words ⟨home, number⟩ = none)
    (here : hits[index]? = some hit) (active : hit.isActive = true)
    : hit.origin ≠ ⟨home, number⟩ := by
  intro version
  have tied := exclusive.tied index hit here
  obtain ⟨oneShot, taken⟩ := Bool.and_eq_true_iff.mp active
  have unshared : hit.claimState = none := by
    cases shared : hit.claimState with
    | none => rfl
    | some word =>
        obtain ⟨same, made⟩ := tied.reservation word shared
        rw [same, version, unmade] at made
        exact absurd rfl made
  have place := (tied.own oneShot unshared).symm.trans version
  obtain ⟨registry, number⟩ := Name.mk.inj place
  obtain ⟨settled, unused⟩ := placed.free found state here registry number oneShot
  cases stage : hit.stage with
  | settled consumed =>
      cases consumed with
      | true => exact unused stage unshared
      | false =>
          rw [stage] at taken
          cases taken
  | _ =>
      rw [stage] at settled
      cases settled

/-- The words of a claim that took its reservation, when that was there to take. -/
structure Reserves (words : Name → Option ClaimWord) (record : Record Key) (result : Result)
    (next : Name → Option ClaimWord) : Prop where
  same : ∀ word, next word = none ↔ words word = none
  others : ∀ word, record.claimState ≠ some word → next word = words word
  reusable : result.oneShot = false → next = words
  taken
    : result.oneShot = true
      → ∀ word,
          record.claimState = some word
          → words word = some .available ∧ next word = some .reserved

/-- What a claim adds to a system. -/
def claimHit (home number : ℕ) (record : Record Key) (result : Result)
    (forwardOwner : Option String) (scope : Option ExecutionScope)
    : Hit where
  registry := home
  record := number
  result := result
  origin := record.origin
  claimState := record.claimState
  receipts := record.receipts
  held := []
  forwardOwner := forwardOwner
  scope := scope
  stage := .claiming
  granted := false

variable [DecidableEq Key] {system next : System Key Value} {forwardOwner : Option String}
  {scope : Option ExecutionScope}

omit [DecidableEq Key] in
theorem reserveWord_spec {claimState : Option Name} {next : System Key Value}
    (reserved : system.reserveWord claimState = some next)
    : ∃ words,
        next = { system with words := words }
        ∧ (claimState = none ∧ words = system.words
          ∨ ∃ word,
              claimState = some word ∧ system.words word = some .available
              ∧ words = Function.update system.words word (some .reserved)) := by
  cases claimState with
  | none => exact ⟨system.words, (Option.some.inj reserved).symm, .inl ⟨rfl, rfl⟩⟩
  | some word =>
      rw [System.reserveWord] at reserved
      split at reserved
      · next available =>
          exact ⟨_, (Option.some.inj reserved).symm, .inr ⟨word, rfl, available, rfl⟩⟩
      · cases reserved

omit [DecidableEq Key] in
theorem claimStep_spec (taken : system.claimStep home number forwardOwner scope = some next)
    : ∃ record result words,
        (system.registries home).executions.get? number = some record
        ∧ record.state = .ended .completed (some result)
        ∧ Reserves system.words record result words
        ∧ next =
          {
            registries := Function.update system.registries home
              ((system.registries home).setRecord number (Registry.claimed record result))
            tasks := Function.update system.tasks home
              (.claiming system.hits.length record.receipts)
            words := words
            loans := system.loans
            transfers := system.transfers
            hits := system.hits ++ [claimHit home number record result forwardOwner scope]
          } := by
  rw [System.claimStep] at taken
  simp only at taken
  split at taken
  · next record found =>
      split at taken
      · next result state =>
          obtain ⟨reserved, words, made⟩ := Option.map_eq_some_iff.mp taken
          refine ⟨record, result, reserved.words, found, state, ?_⟩
          split at words
          · next oneShot =>
              obtain ⟨new, rfl, parts⟩ := reserveWord_spec words
              refine ⟨?_, made.symm⟩
              rcases parts with ⟨unshared, rfl⟩ | ⟨word, shared, available, rfl⟩
              · refine ⟨fun _ => .rfl, fun _ _ => rfl, fun _ => rfl, fun _ word shared => ?_⟩
                rw [unshared] at shared
                cases shared
              · refine ⟨fun other => ?_, fun other apart => ?_, fun reusable => ?_,
                  fun _ other same => ?_⟩
                · simp only [Function.update_apply]
                  split
                  · next same =>
                      rw [same, available]
                      exact iff_of_false (Option.some_ne_none _) (Option.some_ne_none _)
                  · rfl
                · exact Function.update_of_ne (fun same : other = word => apart (same ▸ shared)) _ _
                · rw [oneShot] at reusable
                  cases reusable
                · obtain rfl := Option.some.inj (shared.symm.trans same)
                  exact ⟨available, Function.update_self _ _ _⟩
          · next reusable =>
              obtain rfl := Option.some.inj words
              refine ⟨⟨fun _ => .rfl, fun _ _ => rfl, fun _ => rfl, fun used => ?_⟩, made.symm⟩
              exact absurd used reusable
      · cases taken
  · cases taken

omit [DecidableEq Key] in
theorem Registry.spends_claimed (state : record.state = .ended .completed (some result))
    : Registry.Spends record (Registry.claimed record result) := by
  refine ⟨rfl, rfl, rfl, rfl, ?_, .inl ?_⟩
  all_goals
    simp only [Registry.claimed, state]
    split
    all_goals rfl

omit [DecidableEq Key] in
/-- The word that a claim takes is that of no other claim. -/
theorem Exclusive.reserves (exclusive : Exclusive words hits) {next : Name → Option ClaimWord}
    (reserves : Reserves words record result next)
    : Exclusive next hits where
  tied index hit here := by
    have tied := exclusive.tied index hit here
    have apart (word : Name) (mine : hit.claimState = some word)
        (used : words word ≠ some .available) : next word = words word := by
      by_cases same : record.claimState = some word
      · cases oneShot : result.oneShot with
        | false => rw [reserves.reusable oneShot]
        | true => exact absurd (reserves.taken oneShot word same).1 used
      · exact reserves.others word same
    refine ⟨tied.plain, fun word shared => ?_, tied.own, fun holding word shared => ?_,
      fun left used word shared => ?_, fun active made => ?_, tied.empty⟩
    · obtain ⟨same, made⟩ := tied.reservation word shared
      exact ⟨same, fun gone => made ((reserves.same word).mp gone)⟩
    · have held := tied.held holding word shared
      rw [apart word shared (by rw [held]; nofun), held]
    · have consumed := tied.consumed left used word shared
      rw [apart word shared (by rw [consumed]; nofun), consumed]
    · exact tied.shares active fun gone => made ((reserves.same _).mpr gone)
  alone := exclusive.alone

omit [DecidableEq Key] in
/-- A claim that has just begun stands to its reservation as its record does. -/
theorem claimHit_tied (tied : RecordTied words home number record)
    (state : record.state = .ended .completed (some result)) {next : Name → Option ClaimWord}
    (reserves : Reserves words record result next) (forwardOwner : Option String)
    (scope : Option ExecutionScope)
    : HitTied next (claimHit home number record result forwardOwner scope) := by
  have holds : record.state.result? = some result := by
    rw [state]
    rfl
  constructor
  · exact fun reusable => tied.unshared result holds reusable
  · intro word shared
    obtain ⟨same, made⟩ := tied.reservation word shared
    exact ⟨same, fun gone => made ((reserves.same word).mp gone)⟩
  · exact fun oneShot unshared => (tied.made_here state oneShot unshared).2.1
  · intro _ word shared
    cases oneShot : result.oneShot with
    | true => exact (reserves.taken oneShot word shared).2
    | false =>
        have unshared := tied.unshared result holds oneShot
        rw [show record.claimState = some word from shared] at unshared
        cases unshared
  · exact nofun
  · intro active made
    obtain ⟨oneShot, _⟩ := Bool.and_eq_true_iff.mp active
    change next record.origin ≠ none at made
    change record.claimState = some record.origin
    cases shared : record.claimState with
    | none =>
        obtain ⟨_, origin, unmade⟩ := tied.made_here state oneShot shared
        rw [origin, Ne, reserves.same] at made
        exact absurd unmade made
    | some word => rw [(tied.reservation word shared).1]
  · exact nofun

/-- No other claim holds a version of the result that a claim takes, or has consumed it. -/
theorem Linear.unclaimed (linear : Linear system) {next : Name → Option ClaimWord}
    (found : (system.registries home).executions.get? number = some record)
    (state : record.state = .ended .completed (some result))
    (reserves : Reserves system.words record result next) (oneShot : result.oneShot = true)
    (here : system.hits[index]? = some hit) (active : hit.isActive = true)
    : hit.origin ≠ record.origin := by
  intro version
  have tied := linear.tied.records home number record found
  have other := linear.exclusive.tied index hit here
  cases shared : record.claimState with
  | none =>
      obtain ⟨_, origin, unmade⟩ := tied.made_here state oneShot shared
      exact linear.exclusive.unreserved linear.placed found state unmade here active
        (version.trans origin)
  | some word =>
      obtain ⟨rfl, there⟩ := tied.reservation word shared
      obtain ⟨available, _⟩ := reserves.taken oneShot _ shared
      have mine := other.shares active (by rw [version]; exact there)
      rw [version] at mine
      obtain ⟨_, holds⟩ := Bool.and_eq_true_iff.mp active
      cases holding : hit.stage.isHolding with
      | true =>
          have held := other.held holding _ mine
          rw [available] at held
          cases held
      | false =>
          rw [holding, Bool.false_or] at holds
          have consumed := other.consumed holding holds _ mine
          rw [available] at consumed
          cases consumed

omit [DecidableEq Key] in
/-- A record leaves its state while no unsettled claim is on it. -/
theorem Placed.leaves {after : ℕ → Registry Key Value} (placed : Placed registries hits)
    (home number : ℕ) (settles : ∀ other, Registry.Settles other (registries other) (after other))
    (states
      : ∀ other place record,
          (after other).executions.get? place = some record
          → place < (registries other).recordsMade
          → ∃ previous,
              (registries other).executions.get? place = some previous
              ∧ (record.state = previous.state ∨ other = home ∧ place = number))
    (unbound
      : ∀ (index : ℕ) hit record,
          hits[index]? = some hit → hit.registry = home → hit.record = number
          → (after home).executions.get? number = some record → Unbound hit record)
    : Placed after hits := by
  refine placed.moves (fun other => (settles other).recordsMade) fun index hit here =>
    ⟨hit, here, .refl hit, .inl rfl, fun record found => ?_⟩
  have made := placed.made index hit here
  obtain ⟨previous, there, spends⟩ := (settles hit.registry).old hit.record record found made
  obtain ⟨same, was, state⟩ := states hit.registry hit.record record found made
  obtain rfl := Option.some.inj (there.symm.trans was)
  refine ⟨previous, there, spends.origin, spends.running, ?_⟩
  rcases state with still | ⟨registry, place⟩
  · exact .inl ⟨still, .inl rfl⟩
  · refine .inr (unbound index hit record here registry place ?_)
    rw [← registry, ← place]
    exact found

/-- A claim begins: the words it takes were those of no other claim. -/
theorem Linear.claim (linear : Linear system) (idle : system.isIdle home = true)
    (taken : system.claimStep home number forwardOwner scope = some next)
    : Linear next := by
  obtain ⟨record, result, words, found, state, reserves, rfl⟩ := claimStep_spec taken
  have accounted := linear.accounted home
  have tied := linear.tied.records home number record found
  have holds : record.state.result? = some result := by
    rw [state]
    rfl
  have spends := Registry.spends_claimed state
  have settles := linear.settling (accounted.settles_set found
    ((system.registries home).setRecord number (Registry.claimed record result)) _ spends rfl rfl
    rfl rfl rfl)
  have alike : Registry.CountsAlike record (Registry.claimed record result) := by
    refine ⟨rfl, spends.running, ?_, rfl⟩
    simp only [Registry.claimed, state]
    split
    all_goals rfl
  have made := accounted.made found
  have here : (Function.update system.registries home ((system.registries home).setRecord number
      (Registry.claimed record result)) home).executions.get? number
      = some (Registry.claimed record result) := by
    rw [Function.update_self, Registry.setRecord, OrderedMap.get?_set, if_pos rfl]
  have placed : Placed (Function.update system.registries home
      ((system.registries home).setRecord number (Registry.claimed record result)))
      system.hits := by
    refine linear.placed.leaves home number settles (states_update fun place left still _ => ?_)
      fun index hit left there registry place still once => ?_
    · rw [Registry.setRecord, OrderedMap.get?_set] at still
      split at still
      · next same => exact ⟨record, same ▸ found, .inr same⟩
      · exact ⟨left, still, .inl rfl⟩
    · obtain ⟨settled, unused⟩ := linear.placed.free found state there registry place once
      exact ⟨settled, fun spent unshared => absurd unshared (unused spent)⟩
  refine ⟨linear.accounting (accounted.setRecord found alike),
    (linear.tied.settles settles).words_congr reserves.same, ?_, ?_, ?_, ?_, ?_, ?_⟩
  · refine (linear.exclusive.reserves reserves).append
      (claimHit_tied tied state reserves forwardOwner scope) fun active index hit there taken => ?_
    exact linear.unclaimed found state reserves (Bool.and_eq_true_iff.mp active).1 there taken
  · refine placed.append here ?_ ?_ spends.origin ?_ rfl fun index hit there registry place once =>
      (linear.placed.free found state there registry place once).1
    · exact made.trans_le (settles home).recordsMade
    · rw [spends.running, state]
      rfl
    · intro oneShot
      exact if_pos oneShot
  · exact linear.working.append (claimHit home number record result forwardOwner scope)
      (Task.hit?_of_idle idle).1 rfl rfl rfl
  · refine Lent.setTask (Lent.append ((linear.lent.settles settles).words_congr fun word gone =>
      (reserves.same word).mp gone) fun loan member => ?_) fun queue same => ?_
    · obtain ⟨oneShot, imported, lent⟩ := linear.lent.records home number record found loan member
      rw [← tied.kind oneShot result imported holds] at lent
      exact lent
    · cases same
  · refine (linear.revoked.settles linear.lent settles).moves ?_ (fun _ shut => shut)
      fun index hit loan here shut below => ?_
    · exact queued_update (Task.hit?_of_idle idle).2 _
    · rcases of_get?_append here with ⟨rfl, rfl⟩ | there
      · exact .inl (.inl ⟨rfl, record.receipts, Function.update_self _ _ _, below⟩)
      · exact .inr ⟨hit, there, .refl hit, fun refused => refused.elsewhere (by
          rw [(Task.hit?_of_idle idle).1]
          exact (Option.some_ne_none _).symm)⟩
  · exact (linear.forwarded.eases (fun other => (settles other).toEases)
      (linear.accounting (accounted.setRecord found alike)) (made_update rfl)).append _

end Beginning

end SpeculativeAction.ProcessHandoff
