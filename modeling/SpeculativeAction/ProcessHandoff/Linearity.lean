import SpeculativeAction.Library.TransitionSystem
import SpeculativeAction.ProcessHandoff.Loans

/-! Every run of lending registries keeps what holds between records, claims, loans and the words
that they share: one-shot results are linear, and what a registry counts is what it holds.
-/

namespace SpeculativeAction.ProcessHandoff

open SpeculativeAction.Library

variable {Key Value Invocation : Type} [DecidableEq Key]

-- Every step and every run

section Runs

variable {system next : System Key Value} {home : ℕ} (capture : Capture Invocation Value)

theorem Linear.start (maxCertificates maxBytes maxRetainedBytes : ℕ → ℕ)
    : Linear (System.start maxCertificates maxBytes maxRetainedBytes : System Key Value) := by
  have nothing {index : ℕ} {hit : Hit} (here : ([] : List Hit)[index]? = some hit) : False := by
    simp at here
  have nobody {home number : ℕ} {record : Record Key}
      (found : ((System.start maxCertificates maxBytes maxRetainedBytes : System Key
        Value).registries home).executions.get? number = some record)
      : False := by
    change (OrderedMap.empty : OrderedMap ℕ (Record Key)).get? number = some record at found
    rw [OrderedMap.get?_empty] at found
    cases found
  constructor
  · exact fun home => Registry.accounted_empty _ _ _
  · exact ⟨fun _ _ _ found => (nobody found).elim, fun _ made => absurd rfl made⟩
  · exact ⟨fun _ _ here => (nothing here).elim, fun _ _ _ _ here => (nothing here).elim⟩
  · exact ⟨fun _ _ here => (nothing here).elim, fun _ _ _ here => (nothing here).elim,
      fun _ _ _ here => (nothing here).elim, fun _ _ _ here => (nothing here).elim,
      fun _ _ _ _ here => (nothing here).elim⟩
  · refine ⟨fun _ _ named => ?_, fun _ _ here => (nothing here).elim, fun _ => rfl,
      fun _ used => ?_⟩
    · cases named
    · cases used
  · refine ⟨?_, ?_, ?_, ?_, ?_, fun _ _ _ found => (nobody found).elim,
      fun _ _ here => (nothing here).elim, ?_, ?_, fun home loans queued loan member => ?_⟩
    · exact fun _ member => absurd member List.not_mem_nil
    · exact fun _ member => absurd member List.not_mem_nil
    · exact fun _ member => absurd member List.not_mem_nil
    · exact fun _ member => absurd member List.not_mem_nil
    · exact fun _ member => absurd member List.not_mem_nil
    · exact fun _ _ member => absurd member List.not_mem_nil
    · exact fun _ _ member => absurd member List.not_mem_nil
    · injection queued with same
      subst same
      cases member
  · exact fun _ _ member => absurd member List.not_mem_nil
  · exact ⟨fun _ _ _ _ found => (nobody found).elim, fun _ _ _ _ _ _ _ found =>
      (nobody found).elim⟩

theorem Linear.localStep (linear : Linear system) {operation : Operation Key Invocation}
    (taken
      : (System.localStep capture (system.registries home) home operation).map
          (system.setRegistry home) = some next)
    : Linear next := by
  obtain ⟨registry, made, rfl⟩ := Option.map_eq_some_iff.mp taken
  obtain ⟨accounted, evolves⟩ := Registry.localStep_spec capture (linear.accounted home) made
  exact linear.evolves accounted evolves

/-- A loan is closed, or the call of the thread takes its next step. -/
theorem Linear.taskStep (linear : Linear system) (taken : system.taskStep home = some next)
    : Linear next := by
  rw [System.taskStep] at taken
  cases task : system.tasks home with
  | settlingLoans loans =>
      rw [task] at taken
      cases loans with
      | nil => cases taken
      | cons loan rest =>
          obtain rfl := Option.some.inj taken
          exact linear.release task
  | claiming index receipts =>
      rw [task] at taken
      obtain ⟨hit, found, rfl, rfl⟩ := linear.working.named_task task rfl taken
      cases receipts with
      | nil => exact linear.grant found task
      | cons receipt rest =>
          simp only
          split
          · exact linear.refuse found task
          · next opened => exact linear.count found task (Bool.eq_false_iff.mpr opened)
  | leaving index forward marks =>
      rw [task] at taken
      obtain ⟨hit, found, rfl, rfl⟩ := linear.working.named_task task rfl taken
      cases marks with
      | cons receipt rest => exact linear.mark found task
      | nil =>
          cases held : hit.held with
          | nil =>
              have left := linear.letGo found task held
              rw [held] at left
              exact left
          | cons receipt rest => exact linear.leave found task held
  | finishing index forward =>
      rw [task] at taken
      obtain ⟨hit, found, rfl, rfl⟩ := linear.working.named_task task rfl taken
      exact linear.finish found task

theorem Linear.advance (linear : Linear system) (taken : system.advance home = some next)
    : Linear next := by
  rw [System.advance] at taken
  simp only at taken
  split at taken
  · next loan rest closing =>
      obtain rfl := Option.some.inj taken
      have accounted := linear.accounted home
      refine (linear.close loan).evolves ⟨accounted.bytes, accounted.count, accounted.index,
        accounted.bindings, accounted.bindingsMade, accounted.results, accounted.recordsMade⟩
        (accounted.evolves_same rfl rfl rfl (Registry.unchanged rfl))
  · exact linear.taskStep taken

/-- Every step of every thread keeps what holds of lending registries. -/
theorem Linear.step (linear : Linear system) {label : ℕ × Operation Key Invocation}
    (taken : System.step capture system label = some next)
    : Linear next := by
  obtain ⟨home, operation⟩ := label
  cases operation with
  | advance => exact linear.advance taken
  | claim number forwardOwner scope =>
      obtain ⟨idle, taken⟩ := Option.ite_none_right_eq_some.mp taken
      exact linear.claim idle taken
  | settle index consumed forward =>
      obtain ⟨idle, taken⟩ := Option.ite_none_right_eq_some.mp taken
      split at taken
      · next hit found =>
          obtain ⟨⟨rfl, pending⟩, made⟩ := Option.ite_none_right_eq_some.mp taken
          obtain rfl := Option.some.inj made
          exact (linear.settlement found idle pending consumed forward).returnBorrower
            hit.registry hit.record
      · cases taken
  | offer lend number leased =>
      obtain ⟨idle, taken⟩ := Option.ite_none_right_eq_some.mp taken
      exact linear.offer taken
  | settleLend lend =>
      obtain ⟨idle, taken⟩ := Option.ite_none_right_eq_some.mp taken
      obtain ⟨entry, lending, made⟩ := Option.map_eq_some_iff.mp taken
      subst made
      exact linear.settleLend idle lending
  | receive number =>
      obtain ⟨idle, taken⟩ := Option.ite_none_right_eq_some.mp taken
      obtain ⟨_, received⟩ := Option.ite_none_left_eq_some.mp taken
      obtain ⟨transfer, there, made⟩ := Option.map_eq_some_iff.mp received
      subst made
      exact linear.receive (List.mem_of_getElem? there) home
  | _ =>
      obtain ⟨idle, taken⟩ := Option.ite_none_right_eq_some.mp taken
      exact linear.localStep capture taken

/-- What is reached from registries that have just been made. -/
def Reached (capture : Capture Invocation Value) (system : System Key Value) : Prop :=
  ∃ (maxCertificates maxBytes maxRetainedBytes : ℕ → ℕ)
    (labels : List (ℕ × Operation Key Invocation)),
    runFrom (System.step capture) (.start maxCertificates maxBytes maxRetainedBytes) labels
      = some system

/-- Every state of lending registries, whatever the order of their threads' steps. -/
theorem Reached.linear (reached : Reached capture system) : Linear system := by
  obtain ⟨maxCertificates, maxBytes, maxRetainedBytes, labels, run⟩ := reached
  exact runFrom_invariant Linear (fun _ _ _ linear taken => linear.step capture taken)
    (.start maxCertificates maxBytes maxRetainedBytes) run

end Runs

-- What a step does to claims

section Effects

variable {system next : System Key Value} {home : ℕ} (capture : Capture Invocation Value)

/-- What a step does to claims, to the calls that threads are in, and to closed words. -/
inductive Effect (system next : System Key Value) : Prop where
  /-- No claim is touched; a loan may be closed. -/
  | still (hits : next.hits = system.hits) (tasks : next.tasks = system.tasks)
      (closed : ∀ loan, (system.loans loan).closed = true → (next.loans loan).closed = true)
  /-- A thread that is in no call of a claim takes up another task. -/
  | rests (home : ℕ) (task : Task) (away : (system.tasks home).hit? = none)
      (hits : next.hits = system.hits) (tasks : next.tasks = Function.update system.tasks home task)
      (closed : ∀ loan, (system.loans loan).closed = true → (next.loans loan).closed = true)
  | begins (new : Hit) (task : Task) (away : (system.tasks new.registry).hit? = none)
      (hits : next.hits = system.hits ++ [new])
      (tasks : next.tasks = Function.update system.tasks new.registry task)
      (loans : next.loans = system.loans) (stage : new.stage = .claiming)
      (granted : new.granted = false)
  | moves (index : ℕ) (hit moved : Hit) (task : Task) (later : Name → LoanWord)
      (moves : Moves system index hit moved task later)
      (hits : next.hits = system.hits.set index moved)
      (tasks : next.tasks = Function.update system.tasks hit.registry task)
      (loans : next.loans = later)

omit [DecidableEq Key] in
theorem closed_close (loan other : Name) (shut : (system.loans other).closed = true)
    : ((system.setLoan loan { system.loans loan with closed := true }).loans other).closed
      = true := by
  rw [System.setLoan]
  simp only [Function.update_apply]
  split
  · rfl
  · exact shut

theorem taskStep_effect (linear : Linear system) (taken : system.taskStep home = some next)
    : Effect system next := by
  rw [System.taskStep] at taken
  cases task : system.tasks home with
  | settlingLoans queue =>
      rw [task] at taken
      cases queue with
      | nil => cases taken
      | cons first rest =>
          obtain rfl := Option.some.inj taken
          exact .rests home _ (by rw [task]; rfl) rfl rfl (closed_close first.claims)
  | claiming index receipts =>
      rw [task] at taken
      obtain ⟨hit, found, rfl, rfl⟩ := linear.working.named_task task rfl taken
      cases receipts with
      | nil => exact .moves index hit _ _ _ (linear.moves_grant found task) rfl rfl rfl
      | cons receipt rest =>
          simp only
          split
          · exact .moves index hit _ _ _ (linear.moves_refuse found task) rfl rfl rfl
          · next opened =>
              exact .moves index hit _ _ _
                (linear.moves_count found task (Bool.eq_false_iff.mpr opened)) rfl rfl rfl
  | leaving index forward marks =>
      rw [task] at taken
      obtain ⟨hit, found, rfl, rfl⟩ := linear.working.named_task task rfl taken
      cases marks with
      | cons receipt rest =>
          exact .moves index hit hit _ _ (linear.moves_mark found task) (set_of_get? found).symm rfl
            rfl
      | nil =>
          cases held : hit.held with
          | nil =>
              have moves := linear.moves_letGo found task
              rw [held] at moves
              obtain ⟨words, given, _⟩ := giveUpWord_spec (fun word shared =>
                ((linear.exclusive.tied index hit found).reservation word shared).2)
                hit.stage.isConsumed
              simp only [given]
              exact .moves index hit _ _ _ moves rfl rfl rfl
          | cons receipt rest =>
              refine .moves index hit _ _ _ (linear.moves_leave found task held) rfl ?_ rfl
              rw [← task, Function.update_eq_self]
              rfl
  | finishing index forward =>
      rw [task] at taken
      obtain ⟨hit, found, rfl, rfl⟩ := linear.working.named_task task rfl taken
      exact .moves index hit _ _ _ (linear.moves_finish found task) rfl rfl rfl

theorem step_effect (linear : Linear system) {label : ℕ × Operation Key Invocation}
    (taken : System.step capture system label = some next)
    : Effect system next := by
  obtain ⟨home, operation⟩ := label
  cases operation with
  | advance =>
      change system.advance home = some next at taken
      rw [System.advance] at taken
      simp only at taken
      split at taken
      · next loan rest closing =>
          obtain rfl := Option.some.inj taken
          exact .still rfl rfl (closed_close loan)
      · exact taskStep_effect linear taken
  | claim number forwardOwner scope =>
      obtain ⟨idle, taken⟩ := Option.ite_none_right_eq_some.mp taken
      obtain ⟨record, result, words, _, _, _, rfl⟩ := claimStep_spec taken
      exact .begins (claimHit home number record result forwardOwner scope) _
        (Task.hit?_of_idle idle).1 rfl rfl rfl rfl rfl
  | settle index consumed forward =>
      obtain ⟨idle, taken⟩ := Option.ite_none_right_eq_some.mp taken
      split at taken
      · next hit found =>
          obtain ⟨⟨rfl, pending⟩, made⟩ := Option.ite_none_right_eq_some.mp taken
          obtain rfl := Option.some.inj made
          exact .moves index hit _ _ _
            (linear.moves_settlement found idle pending consumed forward) rfl rfl rfl
      · cases taken
  | offer lend number leased =>
      obtain ⟨idle, taken⟩ := Option.ite_none_right_eq_some.mp taken
      obtain ⟨record, result, entry, _, _, _, _, parts⟩ := offerStep_spec taken
      rcases parts with ⟨_, _, rfl⟩ | ⟨_, rfl⟩
      all_goals
        rw [offered]
        split
        all_goals exact .still rfl rfl fun _ => id
  | settleLend lend =>
      obtain ⟨idle, taken⟩ := Option.ite_none_right_eq_some.mp taken
      obtain ⟨entry, lending, made⟩ := Option.map_eq_some_iff.mp taken
      subst made
      exact .rests home _ (Task.hit?_of_idle idle).1 rfl rfl fun _ => id
  | receive number =>
      obtain ⟨idle, taken⟩ := Option.ite_none_right_eq_some.mp taken
      obtain ⟨_, received⟩ := Option.ite_none_left_eq_some.mp taken
      obtain ⟨transfer, there, made⟩ := Option.map_eq_some_iff.mp received
      subst made
      exact .still rfl rfl fun _ => id
  | _ =>
      obtain ⟨idle, taken⟩ := Option.ite_none_right_eq_some.mp taken
      obtain ⟨registry, made, rfl⟩ := Option.map_eq_some_iff.mp taken
      exact .still rfl rfl fun _ => id

omit [DecidableEq Key] in
/-- A claim is the same one after a step: it stays consumed, and is granted once it is through. -/
theorem Effect.claims (effect : Effect system next) {index : ℕ} {hit : Hit}
    (here : system.hits[index]? = some hit)
    : ∃ later,
        next.hits[index]? = some later ∧ SameClaim hit later
        ∧ (hit.stage.isConsumed = true → later.stage.isConsumed = true)
        ∧ (later.granted = true → hit.granted = true ∨ later.stage = .pending) := by
  cases effect with
  | still hits _ _ => exact ⟨hit, hits ▸ here, .refl hit, id, .inl⟩
  | rests _ _ _ hits _ _ => exact ⟨hit, hits ▸ here, .refl hit, id, .inl⟩
  | begins new _ _ hits _ _ _ _ =>
      exact ⟨hit, hits ▸ get?_append here new, .refl hit, id, .inl⟩
  | moves other mover moved task later moves hits _ _ =>
      by_cases same : other = index
      · subst same
        obtain rfl := Option.some.inj (here.symm.trans moves.found)
        exact ⟨moved, hits ▸ get?_set_self here moved, moves.same, moves.taken,
          fun granted => (moves.granted granted).imp_right And.left⟩
      · exact ⟨hit, by rw [hits, List.getElem?_set_ne same, here], .refl hit, id, .inl⟩

end Effects

-- Claims that are never granted

section Barring

variable {system next : System Key Value} {index : ℕ} {loan : Name}
  (capture : Capture Invocation Value)

/-- A claim that was not granted, below a loan that is closed and that it did not get past. -/
structure Barred (system : System Key Value) (index : ℕ) (loan : Name) : Prop where
  closed : (system.loans loan).closed = true
  refused
    : ∃ hit,
        system.hits[index]? = some hit ∧ hit.granted = false
        ∧ Refused system.tasks index hit loan

omit [DecidableEq Key] in
/-- No step grants a barred claim. -/
theorem Barred.effect (barred : Barred system index loan) (effect : Effect system next)
    : Barred next index loan := by
  obtain ⟨closed, hit, here, ungranted, refused⟩ := barred
  cases effect with
  | still hits tasks shut =>
      exact ⟨shut loan closed, hit, hits ▸ here, ungranted, tasks ▸ refused⟩
  | rests home task away hits tasks shut =>
      exact ⟨shut loan closed, hit, hits ▸ here, ungranted,
        tasks ▸ refused.elsewhere (by rw [away]; nofun)⟩
  | begins new task away hits tasks loans _ _ =>
      exact ⟨loans ▸ closed, hit, hits ▸ get?_append here new, ungranted,
        tasks ▸ refused.elsewhere (by rw [away]; nofun)⟩
  | moves other mover moved task later moves hits tasks loans =>
      refine ⟨loans ▸ (moves.closed loan).trans closed, ?_⟩
      rw [hits, tasks]
      by_cases same : other = index
      · subst same
        obtain rfl := Option.some.inj (here.symm.trans moves.found)
        refine ⟨moved, get?_set_self here moved, ?_, moves.refused loan closed refused⟩
        by_contra granted
        rcases moves.granted (Bool.not_eq_false _ |>.mp granted) with before
          | ⟨_, stage, through⟩
        · rw [ungranted] at before
          cases before
        · rcases refused with ⟨_, receipts, counting, left⟩ | gone | gone | gone
          · rw [through] at counting
            injection counting with _ none_
            rw [← none_] at left
            cases left
          all_goals
            rw [stage] at gone
            cases gone
      · exact ⟨hit, by rw [List.getElem?_set_ne same, here], ungranted,
          refused.elsewhere fun named => same (moves.before index named).symm⟩

/-- No run grants a barred claim. -/
theorem Barred.run (linear : Linear system) (barred : Barred system index loan)
    {labels : List (ℕ × Operation Key Invocation)}
    (run : runFrom (System.step capture) system labels = some next)
    : Barred next index loan :=
  (runFrom_invariant (fun system => Linear system ∧ Barred system index loan)
    (fun _ _ _ both taken => ⟨both.1.step capture taken,
      both.2.effect (step_effect capture both.1 taken)⟩)
    ⟨linear, barred⟩ run).2

end Barring

-- One-shot results are linear

section OneShot

variable {system next later : System Key Value} (capture : Capture Invocation Value)

/-- A claim on a one-shot result that was granted and still holds it, or that has consumed it. -/
def Hit.isTaker (hit : Hit) : Bool :=
  hit.result.oneShot && (hit.granted && hit.stage.isHolding || hit.stage.isConsumed)

theorem Hit.isActive_of_isTaker {hit : Hit} (taker : hit.isTaker = true) : hit.isActive = true := by
  obtain ⟨oneShot, taken⟩ := Bool.and_eq_true_iff.mp taker
  rw [Hit.isActive, oneShot, Bool.true_and]
  rcases Bool.or_eq_true_iff.mp taken with holding | consumed
  · rw [(Bool.and_eq_true_iff.mp holding).2, Bool.true_or]
  · rw [consumed, Bool.or_true]

/-- What was consumed stays so in every run. -/
theorem Linear.consumed_run (linear : Linear system) {index : ℕ} {hit : Hit}
    (here : system.hits[index]? = some hit) (consumed : hit.stage.isConsumed = true)
    {labels : List (ℕ × Operation Key Invocation)}
    (run : runFrom (System.step capture) system labels = some later)
    : ∃ same, later.hits[index]? = some same ∧ SameClaim hit same
        ∧ same.stage.isConsumed = true := by
  refine (runFrom_invariant (fun system => Linear system ∧ ∃ same,
      system.hits[index]? = some same ∧ SameClaim hit same ∧ same.stage.isConsumed = true)
    (fun state label after both taken => ?_) ⟨linear, hit, here, .refl hit, consumed⟩ run).2
  obtain ⟨kept, same, there, alike, used⟩ := both
  obtain ⟨moved, now, again, stays, _⟩ := (step_effect capture kept taken).claims there
  refine ⟨kept.step capture taken, moved, now, ?_, stays used⟩
  exact ⟨again.registry.trans alike.registry, again.record.trans alike.record,
    again.result.trans alike.result, again.origin.trans alike.origin,
    again.claimState.trans alike.claimState, again.receipts.trans alike.receipts⟩

/-- A claim that a step grants is on a version of a result that nothing has consumed. -/
theorem Linear.granted_step (linear : Linear system) {label : ℕ × Operation Key Invocation}
    (taken : System.step capture system label = some next) {index other : ℕ} {hit used : Hit}
    (here : next.hits[index]? = some hit) (granted : hit.granted = true)
    (before : ∀ earlier, system.hits[index]? = some earlier → earlier.granted = false)
    (oneShot : hit.result.oneShot = true) (there : next.hits[other]? = some used)
    (once : used.result.oneShot = true) (consumed : used.stage.isConsumed = true)
    : used.origin ≠ hit.origin := by
  intro version
  have effect := step_effect capture linear taken
  have pending : hit.stage = .pending := by
    cases was : system.hits[index]? with
    | some earlier =>
        obtain ⟨same, now, _, _, through⟩ := effect.claims was
        obtain rfl := Option.some.inj (here.symm.trans now)
        refine (through granted).resolve_left fun already => ?_
        rw [before earlier was] at already
        cases already
    | none =>
        cases effect with
        | still hits _ _ =>
            rw [hits, was] at here
            cases here
        | rests _ _ _ hits _ _ =>
            rw [hits, was] at here
            cases here
        | begins new _ _ hits _ _ _ fresh =>
            rw [hits] at here
            rcases of_get?_append here with ⟨_, rfl⟩ | old
            · rw [fresh] at granted
              cases granted
            · rw [was] at old
              cases old
        | moves mover _ _ _ _ moves hits _ _ =>
            rw [hits] at here
            rcases of_get?_set here with ⟨rfl, _⟩ | ⟨_, old⟩
            · rw [moves.found] at was
              cases was
            · rw [was] at old
              cases old
  have taker : hit.isActive = true := by
    rw [Hit.isActive, oneShot, pending]
    rfl
  have spent : used.isActive = true := by
    rw [Hit.isActive, once, consumed, Bool.or_true]
    rfl
  have same := (linear.step capture taken).exclusive.alone other index used hit there here spent
    taker version
  rw [same, here] at there
  rw [← Option.some.inj there, pending] at consumed
  cases consumed

/-- A loan whose lend was settled: nothing that claims below it later is granted. -/
theorem Linear.barred_claim (linear : Linear system) {home : ℕ} {entry : Lend} {loan : Loan}
    (known : entry ∈ (system.registries home).lends) (aborted : entry.aborted = true)
    (inside : loan ∈ entry.loans) (released : ¬ (system.tasks home).isQueued loan)
    {borrower number : ℕ} {record : Record Key}
    (found : (system.registries borrower).executions.get? number = some record)
    (below : loan.claims ∈ record.receipts) {forwardOwner : Option String}
    {scope : Option ExecutionScope}
    (taken
      : System.step capture system (borrower, .claim number forwardOwner scope) = some next)
    : Barred next system.hits.length loan.claims := by
  obtain ⟨_, claimed⟩ := Option.ite_none_right_eq_some.mp taken
  obtain ⟨claimed_, result, words, there, _, _, rfl⟩ := claimStep_spec claimed
  obtain rfl := Option.some.inj (found.symm.trans there)
  exact {
    closed := (linear.revoked home entry known aborted loan inside released).1
    refused := ⟨claimHit borrower number record result forwardOwner scope, by simp, rfl,
      .inl ⟨rfl, record.receipts, Function.update_self _ _ _, below⟩⟩
  }

/-- One-shot results are linear across registries. At most one claim on the versions of a result
holds it or has consumed it; what was consumed stays so, and no step grants another claim on it; a
record that replaces a consumed one is the only one to do so, in the registry that consumed. Below
a loan whose lend was settled no later claim is ever granted, and the lender of a one-shot result
that was consumed below the loan has it no more.
-/
theorem oneShot_linear (reached : Reached capture system)
    : (∀ (first second : ℕ) left right,
        system.hits[first]? = some left → system.hits[second]? = some right
        → left.isTaker = true → right.isTaker = true → left.origin = right.origin
        → first = second)
      ∧ (∀ labels later (index : ℕ) hit,
          runFrom (System.step capture) system labels = some later
          → system.hits[index]? = some hit → hit.stage.isConsumed = true
          → ∃ same,
              later.hits[index]? = some same ∧ SameClaim hit same
              ∧ same.stage.isConsumed = true)
      ∧ (∀ label next (index other : ℕ) hit used,
          System.step capture system label = some next → next.hits[index]? = some hit
          → hit.granted = true
          → (∀ earlier, system.hits[index]? = some earlier → earlier.granted = false)
          → hit.result.oneShot = true → next.hits[other]? = some used
          → used.result.oneShot = true → used.stage.isConsumed = true
          → used.origin ≠ hit.origin)
      ∧ (∀ home number record origin,
          (system.registries home).executions.get? number = some record
          → record.replaces = some origin
          → (∃ (index : ℕ) (hit : Hit),
              system.hits[index]? = some hit ∧ hit.registry = home ∧ hit.origin = origin
              ∧ hit.result.oneShot = true ∧ hit.stage = .settled true)
            ∧ ∀ other place again,
                (system.registries other).executions.get? place = some again
                → again.replaces = some origin → other = home ∧ place = number)
      ∧ (∀ home, ∀ entry ∈ (system.registries home).lends, entry.aborted = true
        → ∀ loan ∈ entry.loans, ¬ (system.tasks home).isQueued loan
        → (∀ borrower number record forwardOwner scope next labels later hit,
            (system.registries borrower).executions.get? number = some record
            → loan.claims ∈ record.receipts
            → System.step capture system (borrower, .claim number forwardOwner scope) = some next
            → runFrom (System.step capture) next labels = some later
            → later.hits[system.hits.length]? = some hit → hit.granted = false)
          ∧ ∀ (index : ℕ) hit,
              system.hits[index]? = some hit → hit.result.oneShot = true
              → loan.claims ∈ hit.receipts → hit.stage.isConsumed = true
              → ∀ record,
                  (system.registries home).executions.get? loan.record = some record
                  → record.state.result? = none) := by
  have linear := reached.linear
  refine ⟨?_, ?_, ?_, ?_, ?_⟩
  · intro first second left right leftHere rightHere leftTaker rightTaker version
    exact linear.exclusive.alone first second left right leftHere rightHere
      (Hit.isActive_of_isTaker leftTaker) (Hit.isActive_of_isTaker rightTaker) version
  · intro labels later index hit run here consumed
    exact linear.consumed_run capture here consumed run
  · intro label next index other hit used taken here granted before oneShot there once consumed
    exact linear.granted_step capture taken here granted before oneShot there once consumed
  · intro home number record origin found replaces
    refine ⟨linear.forwarded.consumed home number record origin found replaces, ?_⟩
    intro other place again there also
    exact linear.forwarded.single other home place number again record origin there found also
      replaces
  · intro home entry known aborted loan inside released
    refine ⟨?_, ?_⟩
    · intro borrower number record forwardOwner scope next labels later hit found below taken run
        here
      have barred := linear.barred_claim capture known aborted inside released found below taken
      obtain ⟨same, there, ungranted, _⟩ :=
        (barred.run capture (linear.step capture taken) run).refused
      rw [Option.some.inj (here.symm.trans there)]
      exact ungranted
    · intro index hit here oneShot below consumed record found
      by_contra some_
      have refused := (linear.revoked home entry known aborted loan inside released).2 record found
        some_ index hit here oneShot below
      rcases refused with ⟨stage, _⟩ | stage | stage | stage
      all_goals
        rw [stage] at consumed
        cases consumed

end OneShot

-- What registries count

section Counts

variable {system : System Key Value} (capture : Capture Invocation Value)

omit [DecidableEq Key] in
theorem total_indicator {weigh : Record Key → ℕ} {holds : Record Key → Bool}
    (indicates : ∀ record, weigh record = if holds record then 1 else 0)
    (executions : OrderedMap ℕ (Record Key))
    : total weigh executions = (executions.values.filter holds).length := by
  rw [total]
  induction executions.values with
  | nil => rfl
  | cons record rest ih =>
      rw [List.map_cons, List.sum_cons, ih, indicates, List.filter_cons]
      split
      · rw [List.length_cons, Nat.add_comm]
      · exact Nat.zero_add _

/-- What a registry counts is what its records hold, in every state of lending registries: bytes
of results and bindings, ended records, the records of every indexed key, and results, of which
each was let go of once or is held by one record. A trim of any registry ends within the three
limits, or with no ended record that is not borrowed.
-/
theorem handoff_accounted (reached : Reached capture system) (home : ℕ)
    : ((system.registries home).retainedBytes
          = ((system.registries home).executions.values.map fun record =>
              Registry.bytesOf record.state.result?
                + Registry.bindingBytes (system.registries home).invocations record).sum
        ∧ 0 ≤ (system.registries home).retainedBytes)
      ∧ (∀ number,
          ((system.registries home).executions.values.filter fun record =>
              record.binding.map Binding.number == some number).length
            = if ((system.registries home).invocations number).isSome then 1 else 0)
      ∧ (system.registries home).completedCount
        = ((system.registries home).executions.values.filter fun record =>
            !record.state.isRunning).length
      ∧ (∀ key records,
          (system.registries home).byKey.get? key = some records
          → records = Registry.scan (system.registries home).executions key)
      ∧ (∀ number,
          (system.registries home).released.count number
              + ((system.registries home).executions.values.filter fun record =>
                  record.state.result?.map Result.number == some number).length
            = if number < (system.registries home).resultsMade then 1 else 0)
      ∧ ∀ registry : Registry Key Value,
          (registry.trim.completedCount ≤ registry.trim.maxCompleted
            ∧ registry.trim.retainedBytes ≤ registry.trim.maxRetainedBytes
            ∧ Registry.storedBytes registry.trim.executions.values ≤ registry.trim.maxBytes)
          ∨ ∀ number record,
              registry.trim.executions.get? number = some record
              → record.state.isRunning = false → record.borrowers ≠ 0 := by
  have accounted := reached.linear.accounted home
  refine ⟨⟨accounted.bytes, ?_⟩, fun number => ?_, ?_, accounted.index, fun number => ?_,
    fun registry => ?_⟩
  · rw [accounted.bytes]
    exact Int.natCast_nonneg _
  · rw [← accounted.bindings number]
    exact (total_indicator (fun record => by simp [Registry.holdsBinding]) _).symm
  · rw [accounted.count, total_indicator (fun record => ?_)]
    rw [Registry.isEnded]
    cases record.state.isRunning <;> rfl
  · have counted := accounted.results number
    rw [Option.toList_none, List.count_nil, Nat.add_zero] at counted
    rw [← counted]
    congr 1
    exact (total_indicator (fun record => by simp [Registry.holdsResult]) _).symm
  · rcases Registry.trim_bounded registry with within | borrowed
    · exact .inl (of_decide_eq_true within)
    · exact .inr borrowed

end Counts

-- A lent result that is consumed

section Sample

def sampleCapture : Capture Unit Unit where
  own _ := some ((), 1)
  stableEqual _ _ := true

def sampleScope : ExecutionScope := ⟨"session", "turn", none⟩

def sampleSummary : Summary where
  oneShot := true
  complete := true
  executionMs := .finite 1
  bytes := 4
  artifactBytes := 2

/-- One registry lends a one-shot result; another one receives it and its claim consumes it. -/
def sampleLabels : List (ℕ × Operation ℕ Unit) :=
  [
    (0, .reserve 7 "tool" (some sampleScope)), (0, .complete 7 0 (some sampleSummary)),
    (0, .lend (some sampleScope)), (0, .offer 0 0 true),
    (1, .receive 0), (1, .complete 7 0 (some sampleSummary)),
    (1, .claim 0 (some "next") (some sampleScope)), (1, .advance), (1, .advance),
    (1, .settle 0 true true), (1, .advance), (1, .advance), (1, .advance), (1, .advance),
    (0, .settleLend 0), (0, .advance)
  ]

def sampleRun : Option (System ℕ Unit) :=
  runFrom (System.step sampleCapture) (.start (fun _ => 8) (fun _ => 64) (fun _ => 64)) sampleLabels

theorem sampleRun_isSome : sampleRun.isSome = true := by decide

def sampleEnd : System ℕ Unit := sampleRun.get sampleRun_isSome

theorem sampleEnd_reached : Reached sampleCapture sampleEnd :=
  ⟨fun _ => 8, fun _ => 64, fun _ => 64, sampleLabels, (Option.some_get sampleRun_isSome).symm⟩

/-- The claim has consumed, its registry has the one record that replaces what it consumed, and
the lender has no result.
-/
theorem oneShot_linear_sample
    : sampleEnd.hits.map Hit.isTaker = [true]
      ∧ ((sampleEnd.registries 1).executions.get? 1).map Record.replaces = some (some ⟨0, 0⟩)
      ∧ ((sampleEnd.registries 0).executions.get? 0).map (fun record => record.state.result?)
        = some none
      ∧ ∀ (first second : ℕ) left right,
          sampleEnd.hits[first]? = some left → sampleEnd.hits[second]? = some right
          → left.isTaker = true → right.isTaker = true → left.origin = right.origin
          → first = second :=
  ⟨by decide, by decide, by decide, (oneShot_linear sampleCapture sampleEnd_reached).1⟩

theorem handoff_accounted_sample
    : (sampleEnd.registries 1).retainedBytes = 4 ∧ (sampleEnd.registries 1).completedCount = 1
      ∧ (sampleEnd.registries 0).released = [0]
      ∧ ∀ key records,
          (sampleEnd.registries 1).byKey.get? key = some records
          → records = Registry.scan (sampleEnd.registries 1).executions key :=
  ⟨by decide, by decide, by decide,
    (handoff_accounted sampleCapture sampleEnd_reached 1).2.2.2.1⟩

end Sample

end SpeculativeAction.ProcessHandoff
