import SpeculativeAction.ProcessHandoff.Claims

/-! Claims under way: their receipts are counted, they are granted or refused, and their
settlements mark, leave and give up the words that they hold.
-/

namespace SpeculativeAction.ProcessHandoff

open SpeculativeAction.Library

variable {Key Value : Type}

-- One step of a thread with its claim

section Stepping

variable [DecidableEq Key] {system : System Key Value} {index : ℕ} {hit next : Hit} {task : Task}
  {later : Name → LoanWord} {words : Name → Option ClaimWord}
  {registries : ℕ → Registry Key Value}

/-- A thread moves on with the claim that its call is about, or begins a call about it. -/
structure Moves (system : System Key Value) (index : ℕ) (hit next : Hit) (task : Task)
    (later : Name → LoanWord)
    : Prop where
  found : system.hits[index]? = some hit
  same : SameClaim hit next
  unsettled : hit.stage.isSettled = false
  before : ∀ other, (system.tasks hit.registry).hit? = some other → other = index
  after : ∀ other, task.hit? = some other → other = index
  attended : Attended later index next task
  readers
    : ∀ loan,
        (later loan).readers + hit.held.count loan
          = (system.loans loan).readers + next.held.count loan
  consumed : ∀ loan, (system.loans loan).consumed = true → (later loan).consumed = true
  consumers
    : ∀ loan,
        (later loan).consumed = true
        → (system.loans loan).consumed = true
          ∨ next.stage.isConsumed = true ∧ loan ∈ next.receipts
  taken : hit.stage.isConsumed = true → next.stage.isConsumed = true
  closed : ∀ loan, (later loan).closed = (system.loans loan).closed
  resting : ∀ loan, ¬ (system.tasks hit.registry).isQueued loan
  idle : ∀ loans, task = .settlingLoans loans → loans = []
  refused
    : ∀ loan,
        (system.loans loan).closed = true → Refused system.tasks index hit loan
        → Refused (Function.update system.tasks hit.registry task) index next loan
  granted
    : next.granted = true
      → hit.granted = true
        ∨ next.stage = .pending ∧ hit.stage = .claiming
          ∧ system.tasks hit.registry = .claiming index []

theorem Moves.working (moves : Moves system index hit next task later) (linear : Linear system)
    : Working (Function.update system.tasks hit.registry task) (system.hits.set index next)
        later :=
  linear.working.move moves.found moves.same moves.before moves.after moves.attended moves.readers
    moves.consumed moves.consumers moves.taken

omit [DecidableEq Key] in
theorem Moves.lent (moves : Moves system index hit next task later)
    (lent : Lent registries words system.transfers system.hits system.tasks)
    : Lent registries words system.transfers (system.hits.set index next)
        (Function.update system.tasks hit.registry task) := by
  refine (lent.setHit moves.found moves.same).setTask fun loans settling loan member => ?_
  rw [moves.idle loans settling] at member
  cases member

omit [DecidableEq Key] in
theorem Moves.revoked (moves : Moves system index hit next task later)
    (revoked : Revoked registries system.loans system.hits system.tasks)
    : Revoked registries later (system.hits.set index next)
        (Function.update system.tasks hit.registry task) := by
  refine revoked.moves (queued_update moves.resting task)
    (fun loan shut => (moves.closed loan).trans shut) fun other moved loan here shut below => ?_
  rcases of_get?_set here with ⟨rfl, rfl⟩ | ⟨different, there⟩
  · exact .inr ⟨hit, moves.found, moves.same, moves.refused loan shut⟩
  · exact .inr ⟨moved, there, .refl moved, fun refused =>
      refused.elsewhere fun named => different (moves.before other named)⟩

/-- A claim that is not settled moves on, and its words with it. -/
theorem Linear.move (linear : Linear system) (moves : Moves system index hit next task later)
    (still : next.stage.isSettled = false)
    (same : ∀ word, words word = none ↔ system.words word = none)
    (exclusive : Exclusive words (system.hits.set index next))
    : Linear
        {
          system with
          hits := system.hits.set index next
          tasks := Function.update system.tasks hit.registry task
          loans := later
          words := words
        } where
  accounted := linear.accounted
  tied := linear.tied.words_congr same
  exclusive := exclusive
  placed := linear.placed.setHit moves.found moves.same moves.unsettled still
  working := moves.working linear
  lent := (moves.lent linear.lent).words_congr fun word gone => (same word).mp gone
  revoked := moves.revoked linear.revoked
  forwarded := linear.forwarded.setHit moves.found moves.unsettled next

/-- A claim keeps its reservation from one stage to the next. -/
theorem Exclusive.hold {hits : List Hit} (exclusive : Exclusive words hits)
    (found : hits[index]? = some hit) (same : SameClaim hit next)
    (holding : hit.stage.isHolding = true) (still : next.stage.isHolding = true)
    : Exclusive words (hits.set index next) := by
  have tied := exclusive.tied index hit found
  have active (taken : next.isActive = true) : hit.isActive = true := by
    obtain ⟨oneShot, _⟩ := Bool.and_eq_true_iff.mp taken
    rw [same.result] at oneShot
    rw [Hit.isActive, oneShot, holding]
    rfl
  refine exclusive.setHit found same ?_ active
  constructor
  · rw [same.result, same.claimState]
    exact tied.plain
  · rw [same.claimState, same.origin]
    exact tied.reservation
  · rw [same.result, same.claimState, same.origin, same.registry, same.record]
    exact tied.own
  · rw [same.claimState]
    exact fun _ => tied.held holding
  · intro left
    rw [still] at left
    cases left
  · intro taken
    rw [same.claimState, same.origin]
    exact tied.shares (active taken)
  · intro left
    rw [still] at left
    cases left

/-- Only records' borrowers change, or records that are in no claim. -/
theorem Linear.settle (linear : Linear system) {home : ℕ} {registry : Registry Key Value}
    (accounted : registry.Accounted none)
    (settles : Registry.Settles home (system.registries home) registry)
    (made : registry.recordsMade = (system.registries home).recordsMade)
    (placed : Placed (Function.update system.registries home registry) system.hits)
    : Linear (system.setRegistry home registry) where
  accounted := linear.accounting accounted
  tied := linear.tied.settles (linear.settling settles)
  exclusive := linear.exclusive
  placed := placed
  working := linear.working
  lent := linear.lent.settles (linear.settling settles)
  revoked := linear.revoked.settles linear.lent (linear.settling settles)
  forwarded := linear.forwarded.eases (fun other => (linear.settling settles other).toEases)
    (linear.accounting accounted) (made_update made)

/-- A record changes in nothing that matters to claims and loans. -/
theorem Linear.setRecord (linear : Linear system) {home number : ℕ} {record : Record Key}
    (found : (system.registries home).executions.get? number = some record) (next : Record Key)
    (lineage : Registry.SameLineage record next) (key : next.key = record.key)
    (state : next.state = record.state) (binding : next.binding = record.binding)
    : Linear (system.setRegistry home ((system.registries home).setRecord number next)) := by
  have accounted := linear.accounted home
  have settles : Registry.Settles home (system.registries home)
      ((system.registries home).setRecord number next) :=
    accounted.settles_set found _ next ⟨lineage.receipts, lineage.imported, lineage.origin,
      lineage.replaces, by rw [state], .inl (by rw [state])⟩ lineage.claimState rfl rfl rfl rfl
  refine linear.settle (accounted.setRecord found ⟨key, by rw [state], by rw [state], binding⟩)
    settles rfl (linear.placed.still (fun other => (linear.settling settles other).recordsMade)
      fun other place left here _ => ?_)
  rw [Function.update_apply] at here
  split at here
  · next same =>
      subst same
      rw [Registry.setRecord, OrderedMap.get?_set] at here
      split at here
      · next same =>
          rw [same, ← Option.some.inj here]
          exact ⟨record, found, state, lineage.origin⟩
      · exact ⟨left, here, rfl, rfl⟩
  · exact ⟨left, here, rfl, rfl⟩

theorem Linear.returnBorrower (linear : Linear system) (home number : ℕ)
    : Linear (system.setRegistry home ((system.registries home).returnBorrower number)) := by
  rw [Registry.returnBorrower]
  split
  · next record found =>
      exact linear.setRecord found { record with borrowers := record.borrowers - 1 }
        ⟨rfl, rfl, rfl, rfl, rfl⟩ rfl rfl rfl
  · rw [System.setRegistry, Function.update_eq_self]
    exact linear

/-- The word of a loan is closed. -/
theorem Linear.close (linear : Linear system) (loan : Name)
    : Linear (system.setLoan loan { system.loans loan with closed := true }) := by
  have same (other : Name)
      : (Function.update system.loans loan { system.loans loan with closed := true }
          other).readers = (system.loans other).readers
        ∧ (Function.update system.loans loan { system.loans loan with closed := true }
          other).consumed = (system.loans other).consumed := by
    rw [Function.update_apply]
    split
    · next same =>
        rw [same]
        exact ⟨rfl, rfl⟩
    · exact ⟨rfl, rfl⟩
  have consumed (other : Name) := (same other).2
  refine ⟨linear.accounted, linear.tied, linear.exclusive, linear.placed, ?_, linear.lent, ?_,
    linear.forwarded⟩
  · constructor
    · exact linear.working.named
    · exact fun index hit here => (linear.working.attended index hit here).mono
        fun other used => (consumed other).trans used
    · exact fun other => (same other).1.trans (linear.working.readers other)
    · exact fun other used => linear.working.consumers other ((consumed other).symm.trans used)
  · refine linear.revoked.moves (fun _ _ => id) (fun other shut => ?_) fun index hit other here _ _ =>
      .inr ⟨hit, here, .refl hit, id⟩
    rw [System.setLoan]
    simp only [Function.update_apply]
    split
    · rfl
    · exact shut

end Stepping

-- The steps of a claim and of its settlement

section Steps

variable [DecidableEq Key] {system : System Key Value} {index : ℕ} {hit : Hit} {home : ℕ}
  {receipt : Name} {rest : List Name} {forward consumed : Bool}
  {registry : Registry Key Value}

omit [DecidableEq Key] in
theorem Working.named_task (working : Working system.tasks system.hits system.loans) {task : Task}
    {α : Type} {step : Hit → α} {value : α} (here : system.tasks home = task)
    (named : task.hit? = some index) (taken : system.hits[index]?.map step = some value)
    : ∃ hit, system.hits[index]? = some hit ∧ hit.registry = home ∧ step hit = value := by
  obtain ⟨hit, found, same⟩ := Option.map_eq_some_iff.mp taken
  obtain ⟨owner, there, registry⟩ := working.named home index (by rw [here, named])
  rw [found] at there
  exact ⟨hit, found, by rw [Option.some.inj there, registry], same⟩

omit [DecidableEq Key] in
theorem set_of_get? (found : system.hits[index]? = some hit)
    : system.hits.set index hit = system.hits := by
  obtain ⟨bound, same⟩ := List.getElem?_eq_some_iff.mp found
  rw [← same, List.set_getElem_self]

/-- A granted claim is settled: its reservation is still held, and its marks are to be made. -/
theorem Linear.moves_settlement (linear : Linear system) (found : system.hits[index]? = some hit)
    (idle : system.isIdle hit.registry = true) (pending : hit.stage = .pending)
    (consumed forward : Bool)
    : Moves system index hit { hit with stage := .leaving consumed }
        (.leaving index forward (if consumed then hit.receipts else [])) system.loans := by
  have old := linear.working.attended index hit found
  obtain ⟨away, resting⟩ := Task.hit?_of_idle idle
  refine ⟨found, ⟨rfl, rfl, rfl, rfl, rfl, rfl⟩, ?_, ?_, ?_, ?_, fun _ => rfl, fun _ => id,
    fun _ => .inl, ?_, fun _ => rfl, resting, nofun, ?_, .inl⟩
  · rw [pending]
    rfl
  · intro other named
    rw [away] at named
    cases named
  · exact fun other named => (Option.some.inj named).symm
  · refine ⟨nofun, fun _ _ => ⟨forward, _, rfl⟩, nofun, nofun, ?_, nofun, nofun, old.within, nofun⟩
    intro _ marks same
    injection same with _ _ same
    subst same
    refine ⟨consumed, rfl, fun some_ => ?_, fun loan member => ?_, fun used loan member => ?_⟩
    · cases consumed with
      | true => exact ⟨rfl, old.pending pending⟩
      | false => exact absurd rfl some_
    · cases consumed with
      | true => exact member
      | false => cases member
    · rw [used]
      exact .inl member
  · rw [pending]
    nofun
  · rintro loan _ (⟨claiming, _⟩ | left | left | left)
    all_goals
      first
        | rw [pending] at claiming
          cases claiming
        | rw [pending] at left
          cases left

theorem Linear.settlement (linear : Linear system) (found : system.hits[index]? = some hit)
    (idle : system.isIdle hit.registry = true) (pending : hit.stage = .pending)
    (consumed forward : Bool)
    : Linear ((system.setHit index { hit with stage := .leaving consumed }).setTask hit.registry
        (.leaving index forward (if consumed then hit.receipts else []))) := by
  have holding : hit.stage.isHolding = true := by
    rw [pending]
    rfl
  exact linear.move (linear.moves_settlement found idle pending consumed forward) rfl
    (fun _ => .rfl) (linear.exclusive.hold found ⟨rfl, rfl, rfl, rfl, rfl, rfl⟩ holding rfl)

omit [DecidableEq Key] in
/-- The call of a thread is about the claim that it names, and no loan waits for it. -/
theorem about {task : Task} (here : system.tasks home = task) (named : task.hit? = some index)
    : (∀ other, (system.tasks home).hit? = some other → other = index)
      ∧ ∀ loan, ¬ (system.tasks home).isQueued loan := by
  refine ⟨fun other also => ?_, Task.not_queued_of_hit? (here ▸ named)⟩
  rw [here, named] at also
  exact (Option.some.inj also).symm

/-- A claim that got past every receipt is granted. -/
theorem Linear.moves_grant (linear : Linear system) (found : system.hits[index]? = some hit)
    (here : system.tasks hit.registry = .claiming index [])
    : Moves system index hit { hit with stage := .pending, granted := true } .idle
        system.loans := by
  have old := linear.working.attended index hit found
  obtain ⟨stage, _, counted⟩ := old.claiming [] here
  obtain ⟨alone, resting⟩ := about here rfl
  refine ⟨found, ⟨rfl, rfl, rfl, rfl, rfl, rfl⟩, ?_, alone, nofun, ?_, fun _ => rfl, fun _ => id,
    fun _ => .inl, ?_, fun _ => rfl, resting, ?_, ?_, fun _ => .inr ⟨rfl, stage, here⟩⟩
  · rw [stage]
    rfl
  · refine ⟨nofun, nofun, nofun, nofun, nofun, nofun, fun _ => ?_, old.within, nofun⟩
    rw [List.append_nil] at counted
    exact counted
  · rw [stage]
    nofun
  · intro loans same
    injection same with same
    exact same.symm
  · rintro loan _ (⟨_, receipts, claiming, left⟩ | left | left | left)
    · rw [here] at claiming
      injection claiming with _ none_
      rw [← none_] at left
      cases left
    all_goals
      rw [stage] at left
      cases left

theorem Linear.grant (linear : Linear system) (found : system.hits[index]? = some hit)
    (here : system.tasks hit.registry = .claiming index [])
    : Linear ((system.setHit index { hit with stage := .pending, granted := true }).setTask
        hit.registry .idle) := by
  have holding : hit.stage.isHolding = true := by
    rw [((linear.working.attended index hit found).claiming [] here).1]
    rfl
  exact linear.move (linear.moves_grant found here) rfl (fun _ => .rfl)
    (linear.exclusive.hold found ⟨rfl, rfl, rfl, rfl, rfl, rfl⟩ holding rfl)

/-- One more receipt counts the claim. -/
theorem count_reader {loans : Name → LoanWord} {held : List Name} (loan : Name)
    : (Function.update loans receipt
          { loans receipt with readers := (loans receipt).readers + 1 } loan).readers
        + held.count loan
      = (loans loan).readers + (held ++ [receipt]).count loan := by
  rw [Function.update_apply, List.count_append, List.count_singleton]
  split
  · next same => simp [same]; omega
  · next other => simp [Ne.symm other]

theorem only_readers (loans : Name → LoanWord) (receipt : Name) (readers : ℕ) (loan : Name)
    : (Function.update loans receipt { loans receipt with readers := readers } loan).closed
          = (loans loan).closed
        ∧ (Function.update loans receipt { loans receipt with readers := readers } loan).consumed
          = (loans loan).consumed := by
  rw [Function.update_apply]
  split
  · next same =>
      rw [same]
      exact ⟨rfl, rfl⟩
  · exact ⟨rfl, rfl⟩

/-- A claim counts itself in a receipt that was closed, and leaves. -/
theorem Linear.moves_refuse (linear : Linear system) (found : system.hits[index]? = some hit)
    (here : system.tasks hit.registry = .claiming index (receipt :: rest))
    : Moves system index hit { hit with held := hit.held ++ [receipt], stage := .leaving false }
        (.leaving index false []) (Function.update system.loans receipt
          { system.loans receipt with readers := (system.loans receipt).readers + 1 }) := by
  have old := linear.working.attended index hit found
  obtain ⟨stage, _, counted⟩ := old.claiming _ here
  obtain ⟨alone, resting⟩ := about here rfl
  have kept := only_readers system.loans receipt ((system.loans receipt).readers + 1)
  refine ⟨found, ⟨rfl, rfl, rfl, rfl, rfl, rfl⟩, ?_, alone, ?_, ?_, count_reader,
    fun loan => (kept loan).2.trans, fun loan used => .inl ((kept loan).2.symm.trans used), ?_,
    fun loan => (kept loan).1, resting, nofun, ?_, .inl⟩
  · rw [stage]
    rfl
  · exact fun other named => (Option.some.inj named).symm
  · refine ⟨nofun, fun taken same => ⟨false, [], rfl⟩, nofun, nofun, fun forward marks same => ?_,
      nofun, nofun, fun loan member => ?_, nofun⟩
    · injection same with _ _ same
      subst same
      exact ⟨false, rfl, fun some_ => absurd rfl some_, nofun, nofun⟩
    · rw [← counted]
      exact (List.mem_append.mp member).elim (List.mem_append_left _)
        fun last => List.mem_append_right _ (List.mem_singleton.mp last ▸ List.mem_cons_self)
  · rw [stage]
    nofun
  · exact fun _ _ _ => .inr (.inl rfl)

theorem Linear.refuse (linear : Linear system) (found : system.hits[index]? = some hit)
    (here : system.tasks hit.registry = .claiming index (receipt :: rest))
    : Linear ((((system.setLoan receipt
          { system.loans receipt with readers := (system.loans receipt).readers + 1 }).setHit index
          { hit with held := hit.held ++ [receipt], stage := .leaving false }).setRegistry
            hit.registry ((system.registries hit.registry).returnBorrower hit.record)).setTask
              hit.registry (.leaving index false [])) := by
  have holding : hit.stage.isHolding = true := by
    rw [((linear.working.attended index hit found).claiming _ here).1]
    rfl
  exact (linear.move (linear.moves_refuse found here) rfl (fun _ => .rfl)
    (linear.exclusive.hold found ⟨rfl, rfl, rfl, rfl, rfl, rfl⟩ holding rfl)).returnBorrower
      hit.registry hit.record

/-- A claim counts itself in a receipt that is open. -/
theorem Linear.moves_count (linear : Linear system) (found : system.hits[index]? = some hit)
    (here : system.tasks hit.registry = .claiming index (receipt :: rest))
    (opened : (system.loans receipt).closed = false)
    : Moves system index hit { hit with held := hit.held ++ [receipt] } (.claiming index rest)
        (Function.update system.loans receipt
          { system.loans receipt with readers := (system.loans receipt).readers + 1 }) := by
  have old := linear.working.attended index hit found
  obtain ⟨stage, ungranted, counted⟩ := old.claiming _ here
  obtain ⟨alone, resting⟩ := about here rfl
  have holding : hit.stage.isHolding = true := by
    rw [stage]
    rfl
  have kept := only_readers system.loans receipt ((system.loans receipt).readers + 1)
  refine ⟨found, ⟨rfl, rfl, rfl, rfl, rfl, rfl⟩, ?_, alone, ?_, ?_, count_reader,
    fun loan => (kept loan).2.trans, fun loan used => .inl ((kept loan).2.symm.trans used), id,
    fun loan => (kept loan).1, resting, nofun, ?_, .inl⟩
  · rw [stage]
    rfl
  · exact fun other named => (Option.some.inj named).symm
  · refine ⟨fun _ => ⟨rest, rfl⟩, ?_, ?_, fun receipts same => ?_, nofun, nofun, ?_,
      fun loan member => ?_, ?_⟩
    · intro consumed leaving
      rw [stage] at leaving
      cases leaving
    · intro consumed leaving
      rw [stage] at leaving
      cases leaving
    · injection same with _ same
      subst same
      exact ⟨stage, ungranted, by rw [List.append_assoc]; exact counted⟩
    · intro pending
      rw [stage] at pending
      cases pending
    · rw [← counted]
      exact (List.mem_append.mp member).elim (List.mem_append_left _)
        fun last => List.mem_append_right _ (List.mem_singleton.mp last ▸ List.mem_cons_self)
    · intro left
      rw [holding] at left
      cases left
  · rintro loan shut (⟨_, receipts, claiming, left⟩ | gone)
    · rw [here] at claiming
      injection claiming with _ same
      subst same
      refine .inl ⟨stage, rest, Function.update_self _ _ _, ?_⟩
      refine (List.mem_cons.mp left).resolve_left fun same => ?_
      rw [same, opened] at shut
      cases shut
    · exact .inr gone

theorem Linear.count (linear : Linear system) (found : system.hits[index]? = some hit)
    (here : system.tasks hit.registry = .claiming index (receipt :: rest))
    (opened : (system.loans receipt).closed = false)
    : Linear (((system.setLoan receipt
          { system.loans receipt with readers := (system.loans receipt).readers + 1 }).setHit index
          { hit with held := hit.held ++ [receipt] }).setTask hit.registry
            (.claiming index rest)) := by
  have stage := ((linear.working.attended index hit found).claiming _ here).1
  have holding : hit.stage.isHolding = true := by
    rw [stage]
    rfl
  refine linear.move (linear.moves_count found here opened) ?_ (fun _ => .rfl)
    (linear.exclusive.hold found ⟨rfl, rfl, rfl, rfl, rfl, rfl⟩ holding holding)
  rw [stage]
  rfl

/-- A settlement that consumed marks one more receipt. -/
theorem Linear.moves_mark (linear : Linear system) (found : system.hits[index]? = some hit)
    (here : system.tasks hit.registry = .leaving index forward (receipt :: rest))
    : Moves system index hit hit (.leaving index forward rest) (Function.update system.loans receipt
        { system.loans receipt with consumed := true }) := by
  have old := linear.working.attended index hit found
  obtain ⟨consumed, stage, all, known, marked⟩ := old.leaving forward _ here
  obtain ⟨used, held⟩ := all (List.cons_ne_nil _ _)
  obtain ⟨alone, resting⟩ := about here rfl
  have word (loan : Name)
      : (Function.update system.loans receipt { system.loans receipt with consumed := true }
            loan).readers = (system.loans loan).readers
          ∧ (Function.update system.loans receipt { system.loans receipt with consumed := true }
            loan).closed = (system.loans loan).closed
          ∧ ((Function.update system.loans receipt { system.loans receipt with consumed := true }
            loan).consumed = true ↔ (system.loans loan).consumed = true ∨ loan = receipt) := by
    rw [Function.update_apply]
    split
    · next same =>
        rw [same]
        exact ⟨rfl, rfl, fun _ => .inr rfl, fun _ => rfl⟩
    · next other => exact ⟨rfl, rfl, .inl, fun either => either.resolve_right other⟩
  refine ⟨found, .refl hit, ?_, alone, ?_, ?_, ?_,
    fun loan earlier => (word loan).2.2.mpr (.inl earlier), ?_, id, fun loan => (word loan).2.1,
    resting, nofun, ?_, .inl⟩
  · rw [stage]
    rfl
  · exact fun other named => (Option.some.inj named).symm
  · refine ⟨?_, fun taken leaving => ⟨forward, rest, rfl⟩, ?_, nofun, fun forward marks same => ?_,
      nofun, old.pending, old.within, ?_⟩
    · intro claiming
      rw [stage] at claiming
      cases claiming
    · intro taken left
      rw [stage] at left
      cases left
    · injection same with _ _ same
      subst same
      refine ⟨consumed, stage, fun _ => ⟨used, held⟩,
        fun loan member => known loan (List.mem_cons_of_mem _ member), fun used loan member => ?_⟩
      rcases marked used loan member with waiting | done
      · rcases List.mem_cons.mp waiting with same | later
        · exact .inr ((word loan).2.2.mpr (.inr same))
        · exact .inl later
      · exact .inr ((word loan).2.2.mpr (.inl done))
    · intro left
      rw [stage] at left
      cases left
  · intro loan
    rw [(word loan).1]
  · intro loan taken
    refine ((word loan).2.2.mp taken).imp_right fun same => ⟨?_, ?_⟩
    · rw [stage]
      exact used
    · rw [same]
      exact known receipt List.mem_cons_self
  · rintro loan _ (⟨claiming, _⟩ | gone)
    · rw [stage] at claiming
      cases claiming
    · exact .inr gone

theorem Linear.mark (linear : Linear system) (found : system.hits[index]? = some hit)
    (here : system.tasks hit.registry = .leaving index forward (receipt :: rest))
    : Linear ((system.setLoan receipt { system.loans receipt with consumed := true }).setTask
        hit.registry (.leaving index forward rest)) := by
  obtain ⟨consumed, stage, _⟩ := (linear.working.attended index hit found).leaving forward _ here
  have same := set_of_get? found
  have moved := linear.move (linear.moves_mark found here) (by rw [stage]; rfl) (fun _ => .rfl)
    (by rw [same]; exact linear.exclusive)
  rw [same] at moved
  exact moved

/-- A settlement leaves one of the receipts that count its claim. -/
theorem Linear.moves_leave (linear : Linear system) (found : system.hits[index]? = some hit)
    (here : system.tasks hit.registry = .leaving index forward [])
    (held : hit.held = receipt :: rest)
    : Moves system index hit { hit with held := rest } (.leaving index forward [])
        (Function.update system.loans receipt
          { system.loans receipt with readers := (system.loans receipt).readers - 1 }) := by
  have old := linear.working.attended index hit found
  obtain ⟨consumed, stage, _, _, marked⟩ := old.leaving forward _ here
  obtain ⟨alone, resting⟩ := about here rfl
  have holding : hit.stage.isHolding = true := by
    rw [stage]
    rfl
  have kept := only_readers system.loans receipt ((system.loans receipt).readers - 1)
  refine ⟨found, ⟨rfl, rfl, rfl, rfl, rfl, rfl⟩, ?_, alone, ?_, ?_, fun loan => ?_,
    fun loan => (kept loan).2.trans, fun loan used => .inl ((kept loan).2.symm.trans used), id,
    fun loan => (kept loan).1, resting, nofun, ?_, .inl⟩
  · rw [stage]
    rfl
  · exact fun other named => (Option.some.inj named).symm
  · refine ⟨?_, fun taken leaving => ⟨forward, [], rfl⟩, ?_, nofun, fun forward marks same => ?_,
      nofun, ?_, fun loan member => ?_, ?_⟩
    · intro claiming
      rw [stage] at claiming
      cases claiming
    · intro taken left
      rw [stage] at left
      cases left
    · injection same with _ _ same
      subst same
      refine ⟨consumed, stage, fun some_ => absurd rfl some_, nofun, fun used loan member => ?_⟩
      rcases marked used loan member with none_ | done
      · cases none_
      · exact .inr ((kept loan).2.trans done)
    · intro pending
      rw [stage] at pending
      cases pending
    · exact old.within loan (held ▸ List.mem_cons_of_mem _ member)
    · intro left
      rw [holding] at left
      cases left
  · -- The word counts this claim, so that its readers do not run below zero.
    have counted := linear.working.readers receipt
    obtain ⟨others, sum, _⟩ := sum_map_split (fun hit : Hit => hit.held.count receipt) found
    rw [sum, held, List.count_cons_self] at counted
    rw [Function.update_apply, held, List.count_cons]
    split
    · next same =>
        simp only [same, beq_self_eq_true, if_true]
        omega
    · next other =>
        rw [if_neg (by simpa using Ne.symm other)]
        rfl
  · rintro loan _ (⟨claiming, _⟩ | gone)
    · rw [stage] at claiming
      cases claiming
    · exact .inr gone

theorem Linear.leave (linear : Linear system) (found : system.hits[index]? = some hit)
    (here : system.tasks hit.registry = .leaving index forward [])
    (held : hit.held = receipt :: rest)
    : Linear ((system.setLoan receipt
          { system.loans receipt with readers := (system.loans receipt).readers - 1 }).setHit index
            { hit with held := rest }) := by
  obtain ⟨consumed, stage, _⟩ := (linear.working.attended index hit found).leaving forward _ here
  have holding : hit.stage.isHolding = true := by
    rw [stage]
    rfl
  have moved := linear.move (linear.moves_leave found here held) (by rw [stage]; rfl)
    (fun _ => .rfl) (linear.exclusive.hold found ⟨rfl, rfl, rfl, rfl, rfl, rfl⟩ holding holding)
  rw [← here, Function.update_eq_self] at moved
  exact moved

/-- The words once a claim has given its reservation up. -/
structure GivesUp (words : Name → Option ClaimWord) (hit : Hit) (consumed : Bool)
    (next : Name → Option ClaimWord) : Prop where
  same : ∀ word, next word = none ↔ words word = none
  others : ∀ word, hit.claimState ≠ some word → next word = words word
  spent : consumed = true → ∀ word, hit.claimState = some word → next word = some .consumed

omit [DecidableEq Key] in
theorem giveUpWord_spec (made : ∀ word, hit.claimState = some word → system.words word ≠ none)
    (consumed : Bool)
    : ∃ words,
        system.giveUpWord consumed hit.claimState = { system with words := words }
        ∧ GivesUp system.words hit consumed words := by
  cases shared : hit.claimState with
  | none =>
      refine ⟨system.words, rfl, fun _ => .rfl, fun _ _ => rfl, fun _ word same => ?_⟩
      rw [shared] at same
      cases same
  | some word =>
      have there := made word shared
      refine ⟨_, rfl, fun other => ?_, fun other apart => ?_, fun used other same => ?_⟩
      · rw [Function.update_apply]
        split
        · next same =>
            rw [same]
            refine ⟨fun gone => ?_, fun gone => absurd gone there⟩
            split at gone
            · cases gone
            · split at gone
              · cases gone
              · exact gone
        · rfl
      · refine Function.update_of_ne (fun same : other = word => apart ?_) _ _
        rw [same, shared]
      · rw [shared] at same
        rw [← Option.some.inj same, Function.update_self, if_pos used]

omit [DecidableEq Key] in
/-- No other claim has anything to do with the word that is given up. -/
theorem Exclusive.giveUp {hits : List Hit} {words next : Name → Option ClaimWord}
    (exclusive : Exclusive words hits) (found : hits[index]? = some hit)
    (stage : hit.stage = .leaving consumed) (left : hit.held = [])
    (givesUp : GivesUp words hit consumed next)
    : Exclusive next (hits.set index { hit with stage := .letGo consumed }) := by
  have tied := exclusive.tied index hit found
  have holding : hit.stage.isHolding = true := by
    rw [stage]
    rfl
  have active {other : Hit} (held : HitTied words other) {word : Name}
      (shared : other.claimState = some word)
      (taken : other.stage.isHolding = true ∨ other.stage.isConsumed = true)
      : other.isActive = true := by
    cases oneShot : other.result.oneShot with
    | false =>
        rw [held.plain oneShot] at shared
        cases shared
    | true =>
        rw [Hit.isActive, oneShot]
        rcases taken with taken | taken
        · rw [taken]
          rfl
        · rw [taken, Bool.or_true]
          rfl
  have takes (taken : Hit.isActive { hit with stage := .letGo consumed } = true)
      : hit.isActive = true := by
    obtain ⟨oneShot, _⟩ := Bool.and_eq_true_iff.mp taken
    rw [Hit.isActive, show hit.result.oneShot = true from oneShot, holding]
    rfl
  have apart {place : ℕ} {other : Hit} (here : hits[place]? = some other)
      (different : place ≠ index) {word : Name} (shared : other.claimState = some word)
      (taken : other.stage.isHolding = true ∨ other.stage.isConsumed = true)
      : next word = words word := by
    have held := exclusive.tied place other here
    refine givesUp.others word fun mine => different ?_
    refine exclusive.alone place index other hit here found (active held shared taken)
      (active tied mine (.inl holding)) ?_
    exact (held.reservation word shared).1.symm.trans (tied.reservation word mine).1
  constructor
  · intro place later here
    rcases of_get?_set here with ⟨rfl, rfl⟩ | ⟨different, there⟩
    · refine ⟨tied.plain, fun word shared => ?_, tied.own, nofun, fun _ used word shared => ?_,
        fun taken made => ?_, fun _ => left⟩
      · obtain ⟨same, made⟩ := tied.reservation word shared
        exact ⟨same, fun gone => made ((givesUp.same word).mp gone)⟩
      · exact givesUp.spent used word shared
      · exact tied.shares (takes taken) fun gone => made ((givesUp.same _).mpr gone)
    · have held := exclusive.tied place later there
      refine ⟨held.plain, fun word shared => ?_, held.own, fun taken word shared => ?_,
        fun gone taken word shared => ?_, fun taken made => ?_, held.empty⟩
      · obtain ⟨same, made⟩ := held.reservation word shared
        exact ⟨same, fun gone => made ((givesUp.same word).mp gone)⟩
      · rw [apart there different shared (.inl taken)]
        exact held.held taken word shared
      · rw [apart there different shared (.inr taken)]
        exact held.consumed gone taken word shared
      · exact held.shares taken fun gone => made ((givesUp.same _).mpr gone)
  · have same : SameClaim hit { hit with stage := .letGo consumed } :=
      ⟨rfl, rfl, rfl, rfl, rfl, rfl⟩
    exact fun _ _ _ _ => exclusive.alone_set found same takes

/-- A settlement gives its reservation up. -/
theorem Linear.moves_letGo (linear : Linear system) (found : system.hits[index]? = some hit)
    (here : system.tasks hit.registry = .leaving index forward [])
    : Moves system index hit { hit with stage := .letGo hit.stage.isConsumed }
        (.finishing index forward) system.loans := by
  have old := linear.working.attended index hit found
  obtain ⟨consumed, stage, _, _, marked⟩ := old.leaving forward _ here
  obtain ⟨alone, resting⟩ := about here rfl
  rw [stage, show (Stage.leaving consumed).isConsumed = consumed from rfl]
  refine ⟨found, ⟨rfl, rfl, rfl, rfl, rfl, rfl⟩, ?_, alone, ?_, ?_, fun _ => rfl, fun _ => id,
    fun _ => .inl, ?_, fun _ => rfl, resting, nofun, ?_, .inl⟩
  · rw [stage]
    rfl
  · exact fun other named => (Option.some.inj named).symm
  · refine ⟨nofun, nofun, fun taken same => ⟨forward, rfl⟩, nofun, nofun,
      fun forward same => ⟨consumed, rfl⟩, nofun, old.within, fun _ used loan member => ?_⟩
    exact (marked used loan member).resolve_left List.not_mem_nil
  · rw [stage]
    exact id
  · rintro loan _ (⟨claiming, _⟩ | left | left | left)
    · rw [stage] at claiming
      cases claiming
    · rw [stage] at left
      injection left with unused
      subst unused
      exact .inr (.inr (.inl rfl))
    all_goals
      rw [stage] at left
      cases left

theorem Linear.letGo (linear : Linear system) (found : system.hits[index]? = some hit)
    (here : system.tasks hit.registry = .leaving index forward []) (held : hit.held = [])
    : Linear (((system.giveUpWord hit.stage.isConsumed hit.claimState).setHit index
        { hit with stage := .letGo hit.stage.isConsumed }).setTask hit.registry
          (.finishing index forward)) := by
  obtain ⟨consumed, stage, _⟩ := (linear.working.attended index hit found).leaving forward _ here
  have moves := linear.moves_letGo found here
  obtain ⟨words, same, givesUp⟩ := giveUpWord_spec
    (fun word shared => ((linear.exclusive.tied index hit found).reservation word shared).2) consumed
  rw [stage, show (Stage.leaving consumed).isConsumed = consumed from rfl] at moves ⊢
  rw [same]
  exact linear.move moves rfl givesUp.same (linear.exclusive.giveUp found stage held givesUp)

omit [DecidableEq Key] in
/-- The end of a settlement only changes its own record, which no other claim is on. -/
theorem Placed.finishes {registries : ℕ → Registry Key Value} {hits : List Hit}
    (placed : Placed registries hits) (found : hits[index]? = some hit)
    (stage : hit.stage = .letGo consumed)
    (finishes
      : Registry.Finishes hit.registry hit consumed (registries hit.registry) registry)
    : Placed (Function.update registries hit.registry registry)
        (hits.set index { hit with stage := .settled consumed }) := by
  have unsettled : hit.stage.isSettled = false := by
    rw [stage]
    rfl
  refine placed.moves (fun home => ?_) fun other later here => ?_
  · rw [Function.update_apply]
    split
    · next same => exact same ▸ finishes.recordsMade
    · exact le_rfl
  rcases of_get?_set here with ⟨rfl, rfl⟩ | ⟨different, there⟩
  · refine ⟨hit, found, ⟨rfl, rfl, rfl, rfl, rfl, rfl⟩, .inr unsettled, fun record left => ?_⟩
    rw [Function.update_self] at left
    obtain ⟨previous, was, spends⟩ := finishes.old hit.record record left
      (placed.made other hit found)
    refine ⟨previous, was, spends.origin, spends.running, .inr fun oneShot => ⟨rfl, ?_⟩⟩
    intro spent _
    injection spent with used
    exact finishes.released oneShot used record left
  · refine ⟨later, there, .refl later, .inl rfl, fun record left => ?_⟩
    rw [Function.update_apply] at left
    split at left
    · next home =>
        have made := placed.made other later there
        rw [home] at made
        obtain ⟨previous, was, spends⟩ := finishes.old later.record record left made
        obtain ⟨same, there_, state⟩ := finishes.states later.record record left made
        obtain rfl := Option.some.inj (was.symm.trans there_)
        refine ⟨previous, home ▸ was, spends.origin, spends.running, ?_⟩
        rcases state with still | ⟨place, oneShot⟩
        · exact .inl ⟨still, .inl rfl⟩
        · have reserved := placed.reserved index hit previous found oneShot unsettled
            (place ▸ was)
          have was_ : (registries later.registry).executions.get? later.record = some previous :=
            home ▸ was
          refine .inr fun once => ⟨?_, fun spent unshared => ?_⟩
          · by_contra open_
            exact different (placed.alone other index later hit there found once oneShot
              (Bool.eq_false_iff.mpr open_) unsettled home place)
          · have gone := placed.spent other later previous there once spent unshared was_
            rw [reserved] at gone
            cases gone
    · exact ⟨record, left, rfl, rfl, .inl ⟨rfl, .inl rfl⟩⟩

/-- The record that replaces a consumed one is the first and only one to do so. -/
theorem Linear.forwarded_finish (linear : Linear system) (found : system.hits[index]? = some hit)
    (stage : hit.stage = .letGo consumed)
    (finishes
      : Registry.Finishes hit.registry hit consumed (system.registries hit.registry) registry)
    : Forwarded (Function.update system.registries hit.registry registry)
        (system.hits.set index { hit with stage := .settled consumed }) := by
  have unsettled : hit.stage.isSettled = false := by
    rw [stage]
    rfl
  have old := linear.forwarded.setHit found unsettled { hit with stage := .settled consumed }
  -- A record that replaces one did so before, or was just made for this claim.
  have parts {home number : ℕ} {record : Record Key} {origin : Name}
      (here : (Function.update system.registries hit.registry registry home).executions.get?
        number = some record)
      (replaces : record.replaces = some origin)
      : (∃ previous,
            (system.registries home).executions.get? number = some previous
            ∧ previous.replaces = some origin)
          ∨ home = hit.registry ∧ number = (system.registries hit.registry).recordsMade
            ∧ origin = hit.origin ∧ consumed = true ∧ hit.result.oneShot = true := by
    rw [Function.update_apply] at here
    split at here
    · next same =>
        subst same
        by_cases below : number < (system.registries hit.registry).recordsMade
        · obtain ⟨previous, there, spends⟩ := finishes.old number record here below
          exact .inl ⟨previous, there, spends.replaces ▸ replaces⟩
        · obtain ⟨place, version, used, oneShot⟩ := finishes.replaces number record here
            (Nat.le_of_not_lt below) (by rw [replaces]; exact Option.some_ne_none _)
          rw [replaces] at version
          exact .inr ⟨rfl, place, Option.some.inj version, used, oneShot⟩
    · exact .inl ⟨record, here, replaces⟩
  -- No record replaced this claim's result before.
  have fresh {home number : ℕ} {record : Record Key}
      (there : (system.registries home).executions.get? number = some record)
      (replaces : record.replaces = some hit.origin) (used : consumed = true)
      (oneShot : hit.result.oneShot = true)
      : False := by
    obtain ⟨other, taker, here, _, version, once, settled⟩ :=
      linear.forwarded.consumed home number record hit.origin there replaces
    have active : hit.isActive = true := by
      rw [Hit.isActive, oneShot, stage, used]
      rfl
    have taken : taker.isActive = true := by
      rw [Hit.isActive, once, settled]
      rfl
    obtain rfl := linear.exclusive.alone other index taker hit here found taken active version
    rw [found] at here
    obtain rfl := Option.some.inj here
    rw [settled] at unsettled
    cases unsettled
  constructor
  · intro home number record origin here replaces
    rcases parts here replaces with ⟨previous, there, replaced⟩ | ⟨rfl, _, rfl, used, oneShot⟩
    · exact old.consumed home number previous origin there replaced
    · exact ⟨index, _, get?_set_self found _, rfl, rfl, oneShot, by rw [used]⟩
  · intro home other number next left right origin leftHere rightHere leftFor rightFor
    rcases parts leftHere leftFor with ⟨leftBefore, leftThere, leftReplaced⟩
      | ⟨leftHome, leftPlace, leftVersion, used, oneShot⟩
    · rcases parts rightHere rightFor with ⟨rightBefore, rightThere, rightReplaced⟩
        | ⟨_, _, rightVersion, used, oneShot⟩
      · exact old.single home other number next leftBefore rightBefore origin leftThere rightThere
          leftReplaced rightReplaced
      · exact absurd (fresh leftThere (rightVersion ▸ leftReplaced) used oneShot) id
    · rcases parts rightHere rightFor with ⟨rightBefore, rightThere, rightReplaced⟩
        | ⟨rightHome, rightPlace, _⟩
      · exact absurd (fresh rightThere (leftVersion ▸ rightReplaced) used oneShot) id
      · exact ⟨leftHome.trans rightHome.symm, leftPlace.trans rightPlace.symm⟩

/-- A settlement ends. -/
theorem Linear.moves_finish (linear : Linear system) (found : system.hits[index]? = some hit)
    (here : system.tasks hit.registry = .finishing index forward)
    : Moves system index hit { hit with stage := .settled hit.stage.isConsumed } .idle
        system.loans := by
  have old := linear.working.attended index hit found
  obtain ⟨consumed, stage⟩ := old.finishing forward here
  obtain ⟨alone, resting⟩ := about here rfl
  have left : hit.stage.isHolding = false ∧ hit.stage.isConsumed = consumed := by
    rw [stage]
    exact ⟨rfl, rfl⟩
  rw [stage, show (Stage.letGo consumed).isConsumed = consumed from rfl]
  refine ⟨found, ⟨rfl, rfl, rfl, rfl, rfl, rfl⟩, ?_, alone, nofun, ?_, fun _ => rfl, fun _ => id,
    fun _ => .inl, ?_, fun _ => rfl, resting, ?_, ?_, .inl⟩
  · rw [stage]
    rfl
  · refine ⟨nofun, nofun, nofun, nofun, nofun, nofun, nofun, old.within, fun _ used => ?_⟩
    exact old.marked left.1 (left.2.trans used)
  · exact fun used => left.2.symm.trans used
  · intro loans idle
    injection idle with idle
    exact idle.symm
  · rintro loan _ (⟨claiming, _⟩ | gone | gone | gone)
    · rw [stage] at claiming
      cases claiming
    · rw [stage] at gone
      cases gone
    · rw [stage] at gone
      injection gone with unused
      subst unused
      exact .inr (.inr (.inr rfl))
    · rw [stage] at gone
      cases gone

theorem Linear.finish (linear : Linear system) (found : system.hits[index]? = some hit)
    (here : system.tasks hit.registry = .finishing index forward)
    : Linear (((system.setRegistry hit.registry
          ((system.registries hit.registry).finish hit.registry hit hit.stage.isConsumed
            forward)).setHit index { hit with stage := .settled hit.stage.isConsumed }).setTask
              hit.registry .idle) := by
  obtain ⟨consumed, stage⟩ := (linear.working.attended index hit found).finishing forward here
  have tied := linear.exclusive.tied index hit found
  have moves := linear.moves_finish found here
  rw [stage, show (Stage.letGo consumed).isConsumed = consumed from rfl] at moves ⊢
  obtain ⟨accounted, finishes⟩ := Registry.finish_spec (linear.accounted hit.registry)
    hit.registry hit consumed
    (fun oneShot record there => linear.placed.reserved index hit record found oneShot
      moves.unsettled there) forward
  have settles := linear.settling finishes.toSettles
  have left : hit.stage.isHolding = false ∧ hit.stage.isConsumed = consumed := by
    rw [stage]
    exact ⟨rfl, rfl⟩
  have active : Hit.isActive { hit with stage := .settled consumed } = hit.isActive := by
    rw [Hit.isActive, Hit.isActive, left.1, left.2]
    rfl
  exact {
    accounted := linear.accounting accounted
    tied := linear.tied.settles settles
    exclusive := linear.exclusive.setHit found moves.same
      ⟨tied.plain, tied.reservation, tied.own, nofun,
        fun _ used => tied.consumed left.1 (left.2.trans used),
        fun taken => tied.shares (active ▸ taken), fun _ => tied.empty left.1⟩
      fun taken => active ▸ taken
    placed := linear.placed.finishes found stage finishes
    working := moves.working linear
    lent := moves.lent (linear.lent.settles settles)
    revoked := moves.revoked (linear.revoked.settles linear.lent settles)
    forwarded := linear.forwarded_finish found stage finishes
  }

end Steps

end SpeculativeAction.ProcessHandoff
