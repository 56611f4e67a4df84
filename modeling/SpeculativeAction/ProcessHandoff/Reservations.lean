import SpeculativeAction.ProcessHandoff.Evolution

/-! What holds between records, hits, loans and the words that they share in every state of
lending registries, and that operations which only one registry sees keep it.
-/

namespace SpeculativeAction.ProcessHandoff

open SpeculativeAction.Library
open Registry (Evolves Follows Fresh Grows SameLineage)

variable {Key Value Invocation : Type}

-- Invariants

section Invariants

/-- A one-shot claim that holds its reservation, or has consumed. -/
def Hit.isActive (hit : Hit) : Bool :=
  hit.result.oneShot && (hit.stage.isHolding || hit.stage.isConsumed)

/-- How a record stands to the reservation of its result. -/
structure RecordTied (words : Name → Option ClaimWord) (home number : ℕ) (record : Record Key)
    : Prop where
  reservation
    : ∀ word, record.claimState = some word → word = record.origin ∧ words word ≠ none
  own : record.imported = none → record.origin = ⟨home, number⟩
  shares : record.imported = some true → record.claimState = some record.origin
  plain : record.imported = some false → record.claimState = none
  kind
    : ∀ oneShot result,
        record.imported = some oneShot → record.state.result? = some result
        → result.oneShot = oneShot
  unshared
    : ∀ result,
        record.state.result? = some result → result.oneShot = false → record.claimState = none
  running
    : record.imported = none → record.state.isRunning = true → record.claimState = none
  allocated : words ⟨home, number⟩ ≠ none → record.claimState = some ⟨home, number⟩

structure Tied (registries : ℕ → Registry Key Value) (words : Name → Option ClaimWord)
    : Prop where
  records
    : ∀ home number record,
        (registries home).executions.get? number = some record
        → RecordTied words home number record
  words : ∀ word, words word ≠ none → word.number < (registries word.registry).recordsMade

/-- How a claim stands to the reservation of its result. -/
structure HitTied (words : Name → Option ClaimWord) (hit : Hit) : Prop where
  plain : hit.result.oneShot = false → hit.claimState = none
  reservation : ∀ word, hit.claimState = some word → word = hit.origin ∧ words word ≠ none
  own
    : hit.result.oneShot = true → hit.claimState = none
      → hit.origin = ⟨hit.registry, hit.record⟩
  held
    : hit.stage.isHolding = true
      → ∀ word, hit.claimState = some word → words word = some .reserved
  consumed
    : hit.stage.isHolding = false → hit.stage.isConsumed = true
      → ∀ word, hit.claimState = some word → words word = some .consumed
  shares : hit.isActive = true → words hit.origin ≠ none → hit.claimState = some hit.origin
  empty : hit.stage.isHolding = false → hit.held = []

/-- No two claims hold or have consumed versions of one result. -/
structure Exclusive (words : Name → Option ClaimWord) (hits : List Hit) : Prop where
  tied : ∀ (index : ℕ) hit, hits[index]? = some hit → HitTied words hit
  alone
    : ∀ (first second : ℕ) left right,
        hits[first]? = some left → hits[second]? = some right
        → left.isActive = true → right.isActive = true → left.origin = right.origin
        → first = second

/-- How the records of claims stand while these are not settled, and after. -/
structure Placed (registries : ℕ → Registry Key Value) (hits : List Hit) : Prop where
  made
    : ∀ (index : ℕ) hit,
        hits[index]? = some hit → hit.record < (registries hit.registry).recordsMade
  ended
    : ∀ (index : ℕ) hit record,
        hits[index]? = some hit
        → (registries hit.registry).executions.get? hit.record = some record
        → record.state.isRunning = false ∧ record.origin = hit.origin
  reserved
    : ∀ (index : ℕ) hit record,
        hits[index]? = some hit → hit.result.oneShot = true → hit.stage.isSettled = false
        → (registries hit.registry).executions.get? hit.record = some record
        → record.state = .ended .reserved (some hit.result)
  spent
    : ∀ (index : ℕ) hit record,
        hits[index]? = some hit → hit.result.oneShot = true → hit.stage = .settled true
        → hit.claimState = none
        → (registries hit.registry).executions.get? hit.record = some record
        → record.state.result? = none
  alone
    : ∀ (first second : ℕ) left right,
        hits[first]? = some left → hits[second]? = some right
        → left.result.oneShot = true → right.result.oneShot = true
        → left.stage.isSettled = false → right.stage.isSettled = false
        → left.registry = right.registry → left.record = right.record
        → first = second

/-- A claim in the thread of its registry, whose call is at this task. -/
structure Attended (loans : Name → LoanWord) (index : ℕ) (hit : Hit) (task : Task) : Prop where
  claims : hit.stage = .claiming → ∃ receipts, task = .claiming index receipts
  leaves
    : ∀ consumed,
        hit.stage = .leaving consumed → ∃ forward marks, task = .leaving index forward marks
  finishes
    : ∀ consumed, hit.stage = .letGo consumed → ∃ forward, task = .finishing index forward
  claiming
    : ∀ receipts,
        task = .claiming index receipts
        → hit.stage = .claiming ∧ hit.granted = false ∧ hit.held ++ receipts = hit.receipts
  leaving
    : ∀ forward marks,
        task = .leaving index forward marks
        → ∃ consumed,
            hit.stage = .leaving consumed
            ∧ (marks ≠ [] → consumed = true ∧ hit.held = hit.receipts)
            ∧ (∀ loan ∈ marks, loan ∈ hit.receipts)
            ∧ (consumed = true
              → ∀ loan ∈ hit.receipts, loan ∈ marks ∨ (loans loan).consumed = true)
  finishing : ∀ forward, task = .finishing index forward → ∃ consumed, hit.stage = .letGo consumed
  pending : hit.stage = .pending → hit.held = hit.receipts
  within : ∀ loan ∈ hit.held, loan ∈ hit.receipts
  marked
    : hit.stage.isHolding = false → hit.stage.isConsumed = true
      → ∀ loan ∈ hit.receipts, (loans loan).consumed = true

/-- The claim that the call of a thread is about. -/
def Task.hit? : Task → Option ℕ
  | .settlingLoans _ => none
  | .claiming hit _ | .leaving hit _ _ | .finishing hit _ => some hit

/-- Threads are in calls of their claims, and the words of loans count these. -/
structure Working (tasks : ℕ → Task) (hits : List Hit) (loans : Name → LoanWord) : Prop where
  named
    : ∀ home index,
        (tasks home).hit? = some index → ∃ hit, hits[index]? = some hit ∧ hit.registry = home
  attended
    : ∀ (index : ℕ) hit,
        hits[index]? = some hit → Attended loans index hit (tasks hit.registry)
  readers : ∀ loan, (loans loan).readers = (hits.map fun hit => hit.held.count loan).sum
  consumers
    : ∀ loan,
        (loans loan).consumed = true
        → ∃ (index : ℕ) (hit : Hit),
            hits[index]? = some hit ∧ hit.stage.isConsumed = true ∧ loan ∈ hit.receipts

/-- A loan that was made of a version of this result, but not by this record. -/
def LentOf (transfers : List (LentResult Key)) (loan origin : Name) (oneShot : Bool)
    (borrower : Name)
    : Prop :=
  ∃ transfer ∈ transfers,
    transfer.loan = loan ∧ transfer.origin = origin ∧ transfer.oneShot = oneShot
    ∧ transfer.lender ≠ borrower

/-- Loans name the result that they were made of, and its lender. -/
structure Lent (registries : ℕ → Registry Key Value) (words : Name → Option ClaimWord)
    (transfers : List (LentResult Key)) (hits : List Hit) (tasks : ℕ → Task)
    : Prop where
  shared
    : ∀ transfer ∈ transfers,
        (transfer.oneShot = true
          → transfer.reservation = some transfer.origin ∧ words transfer.origin ≠ none)
        ∧ (transfer.oneShot = false → transfer.reservation = none)
  claims
    : ∀ transfer ∈ transfers, ∀ loan ∈ transfer.claims,
        ∃ other ∈ transfers,
          other.loan = loan ∧ other.origin = transfer.origin ∧ other.oneShot = transfer.oneShot
  made
    : ∀ transfer ∈ transfers,
        transfer.lender.number < (registries transfer.lender.registry).recordsMade
        ∧ transfer.loan.number < (registries transfer.loan.registry).loansMade
  single
    : ∀ left ∈ transfers, ∀ right ∈ transfers, left.loan = right.loan → left = right
  lenders
    : ∀ transfer ∈ transfers, ∀ record,
        (registries transfer.lender.registry).executions.get? transfer.lender.number = some record
        → record.origin = transfer.origin ∧ record.state.isRunning = false
  records
    : ∀ home number record,
        (registries home).executions.get? number = some record
        → ∀ loan ∈ record.receipts,
            ∃ oneShot,
              record.imported = some oneShot
              ∧ LentOf transfers loan record.origin oneShot ⟨home, number⟩
  hits
    : ∀ (index : ℕ) hit,
        hits[index]? = some hit
        → ∀ loan ∈ hit.receipts,
            LentOf transfers loan hit.origin hit.result.oneShot ⟨hit.registry, hit.record⟩
  lends
    : ∀ home, ∀ entry ∈ (registries home).lends, ∀ loan ∈ entry.loans,
        ∃ transfer ∈ transfers,
          transfer.loan = loan.claims ∧ transfer.lender = ⟨home, loan.record⟩
          ∧ transfer.oneShot = loan.result.oneShot
  results
    : ∀ home, ∀ entry ∈ (registries home).lends, ∀ loan ∈ entry.loans, ∀ record,
        (registries home).executions.get? loan.record = some record
        → record.state.result? = none ∨ record.state.result? = some loan.result
  queued
    : ∀ home loans,
        tasks home = .settlingLoans loans
        → ∀ loan ∈ loans, ∃ entry ∈ (registries home).lends, loan ∈ entry.loans

/-- The claim does not get past this receipt, or did not consume. -/
def Refused (tasks : ℕ → Task) (index : ℕ) (hit : Hit) (loan : Name) : Prop :=
  (hit.stage = .claiming
      ∧ ∃ receipts, tasks hit.registry = .claiming index receipts ∧ loan ∈ receipts)
    ∨ hit.stage = .leaving false ∨ hit.stage = .letGo false ∨ hit.stage = .settled false

/-- The loans of this lend that its running `settle` has still to release. -/
def Task.isQueued (loan : Loan) : Task → Prop
  | .settlingLoans loans => loan ∈ loans
  | _ => False

/-- A loan that was released is closed, and where its lender still has the one-shot result no claim
below the loan took it or can.
-/
def Revoked (registries : ℕ → Registry Key Value) (loans : Name → LoanWord) (hits : List Hit)
    (tasks : ℕ → Task)
    : Prop :=
  ∀ home, ∀ entry ∈ (registries home).lends, entry.aborted = true → ∀ loan ∈ entry.loans,
    ¬ (tasks home).isQueued loan
    → (loans loan.claims).closed = true
      ∧ ∀ record,
          (registries home).executions.get? loan.record = some record
          → record.state.result? ≠ none
          → ∀ (index : ℕ) hit,
              hits[index]? = some hit → hit.result.oneShot = true → loan.claims ∈ hit.receipts
              → Refused tasks index hit loan.claims

/-- Records that replace a consumed result: one for each, where it was consumed. -/
structure Forwarded (registries : ℕ → Registry Key Value) (hits : List Hit) : Prop where
  consumed
    : ∀ home number record origin,
        (registries home).executions.get? number = some record → record.replaces = some origin
        → ∃ (index : ℕ) (hit : Hit),
            hits[index]? = some hit ∧ hit.registry = home ∧ hit.origin = origin
            ∧ hit.result.oneShot = true ∧ hit.stage = .settled true
  single
    : ∀ home other number next left right origin,
        (registries home).executions.get? number = some left
        → (registries other).executions.get? next = some right
        → left.replaces = some origin → right.replaces = some origin
        → home = other ∧ number = next

/-- What holds in every state of lending registries. -/
structure Linear [DecidableEq Key] (system : System Key Value) : Prop where
  accounted : ∀ home, (system.registries home).Accounted none
  tied : Tied system.registries system.words
  exclusive : Exclusive system.words system.hits
  placed : Placed system.registries system.hits
  working : Working system.tasks system.hits system.loans
  lent : Lent system.registries system.words system.transfers system.hits system.tasks
  revoked : Revoked system.registries system.loans system.hits system.tasks
  forwarded : Forwarded system.registries system.hits

end Invariants

-- Operations that only their own registry sees

section Evolving

variable {before after : ℕ → Registry Key Value} {words : Name → Option ClaimWord}
  {loans : Name → LoanWord} {transfers : List (LentResult Key)} {hits : List Hit}
  {tasks : ℕ → Task}

theorem RecordTied.follows {home number : ℕ} {previous record : Record Key}
    (tied : RecordTied words home number previous) (follows : Follows previous record)
    : RecordTied words home number record := by
  have result (found : Result) (here : record.state.result? = some found)
      : previous.state.result? = some found
        ∨ previous.state = .running ∧ Registry.Fits previous (some found) := by
    rcases follows.state with same | ⟨running, result, ended, fits⟩
    · exact .inl (same ▸ here)
    · rw [ended] at here
      obtain rfl : result = some found := here
      exact .inr ⟨running, fits⟩
  constructor
  · intro word shared
    rw [follows.origin]
    exact tied.reservation word (follows.claimState ▸ shared)
  · intro own
    rw [follows.origin]
    exact tied.own (follows.imported ▸ own)
  · intro imported
    rw [follows.claimState, follows.origin]
    exact tied.shares (follows.imported ▸ imported)
  · intro imported
    rw [follows.claimState]
    exact tied.plain (follows.imported ▸ imported)
  · intro oneShot found imported here
    rw [follows.imported] at imported
    rcases result found here with earlier | ⟨_, fits⟩
    · exact tied.kind oneShot found imported earlier
    · exact fits found oneShot rfl imported
  · intro found here reusable
    rw [follows.claimState]
    rcases result found here with earlier | ⟨running, fits⟩
    · exact tied.unshared found earlier reusable
    · cases imported : previous.imported with
      | none => exact tied.running imported (by rw [running]; rfl)
      | some oneShot =>
          have kind := fits found oneShot rfl imported
          rw [reusable] at kind
          rw [← kind] at imported
          exact tied.plain imported
  · intro own running
    rw [follows.claimState]
    rcases follows.state with same | ⟨_, result, ended, _⟩
    · exact tied.running (follows.imported ▸ own) (same ▸ running)
    · rw [ended] at running
      cases running
  · intro allocated
    rw [follows.claimState]
    exact tied.allocated allocated

theorem RecordTied.of_fresh {home number : ℕ} {record : Record Key}
    (fresh : Fresh home number record) (unmade : words ⟨home, number⟩ = none)
    : RecordTied words home number record where
  reservation word shared := by
    rw [fresh.claimState] at shared
    cases shared
  own _ := fresh.origin
  shares imported := by
    rw [fresh.imported] at imported
    cases imported
  plain _ := fresh.claimState
  kind oneShot result imported := by
    rw [fresh.imported] at imported
    cases imported
  unshared _ _ _ := fresh.claimState
  running _ _ := fresh.claimState
  allocated made := absurd unmade made

theorem Tied.grows (tied : Tied before words)
    (grows : ∀ home, Grows home (before home) (after home))
    : Tied after words where
  records home number record found := by
    by_cases below : number < (before home).recordsMade
    · obtain ⟨previous, there, follows⟩ := (grows home).old number record found below
      exact (tied.records home number previous there).follows follows
    · obtain ⟨_, fresh⟩ := (grows home).new number record found (Nat.le_of_not_lt below)
      refine .of_fresh fresh (by_contra fun made => below ?_)
      exact tied.words ⟨home, number⟩ made
  words word made := (tied.words word made).trans_le (grows word.registry).recordsMade

/-- What a claim is on stays as it is while an operation touches no claim. -/
theorem Placed.grows (placed : Placed before hits)
    (grows : ∀ home, Grows home (before home) (after home))
    : Placed after hits := by
  have still {index : ℕ} {hit : Hit} (here : hits[index]? = some hit) {record : Record Key}
      (found : (after hit.registry).executions.get? hit.record = some record)
      : ∃ previous,
          (before hit.registry).executions.get? hit.record = some previous
          ∧ record.state = previous.state ∧ record.origin = previous.origin := by
    obtain ⟨previous, there, follows⟩ := (grows hit.registry).old hit.record record found
      (placed.made index hit here)
    refine ⟨previous, there, ?_, follows.origin⟩
    rcases follows.state with same | ⟨running, _⟩
    · exact same
    · have ended := (placed.ended index hit previous here there).1
      rw [running] at ended
      cases ended
  constructor
  · intro index hit here
    exact (placed.made index hit here).trans_le (grows hit.registry).recordsMade
  · intro index hit record here found
    obtain ⟨previous, there, state, origin⟩ := still here found
    rw [state, origin]
    exact placed.ended index hit previous here there
  · intro index hit record here oneShot unsettled found
    obtain ⟨previous, there, state, _⟩ := still here found
    rw [state]
    exact placed.reserved index hit previous here oneShot unsettled there
  · intro index hit record here oneShot settled unshared found
    obtain ⟨previous, there, state, _⟩ := still here found
    rw [state]
    exact placed.spent index hit previous here oneShot settled unshared there
  · exact placed.alone

theorem Lent.evolves (lent : Lent before words transfers hits tasks)
    (evolves : ∀ home, Evolves home (before home) (after home))
    : Lent after words transfers hits tasks := by
  have still {transfer : LentResult Key} (member : transfer ∈ transfers) {record : Record Key}
      (found : (after transfer.lender.registry).executions.get? transfer.lender.number
        = some record)
      : ∃ previous,
          (before transfer.lender.registry).executions.get? transfer.lender.number
            = some previous
          ∧ record.state = previous.state ∧ record.origin = previous.origin := by
    obtain ⟨previous, there, follows⟩ := (evolves transfer.lender.registry).old
      transfer.lender.number record found (lent.made transfer member).1
    refine ⟨previous, there, ?_, follows.origin⟩
    rcases follows.state with same | ⟨running, _⟩
    · exact same
    · have ended := (lent.lenders transfer member previous there).2
      rw [running] at ended
      cases ended
  have older {home : ℕ} {entry : Lend} (member : entry ∈ (after home).lends) {loan : Loan}
      (inside : loan ∈ entry.loans)
      : entry ∈ (before home).lends := by
    obtain ⟨more, made, bare⟩ := (evolves home).lends
    rw [made] at member
    rcases List.mem_append.mp member with earlier | later
    · exact earlier
    · rw [bare entry later] at inside
      cases inside
  constructor
  · exact lent.shared
  · exact lent.claims
  · intro transfer member
    obtain ⟨lender, loan⟩ := lent.made transfer member
    exact ⟨lender.trans_le (evolves transfer.lender.registry).recordsMade,
      (evolves transfer.loan.registry).loansMade ▸ loan⟩
  · exact lent.single
  · intro transfer member record found
    obtain ⟨previous, there, state, origin⟩ := still member found
    rw [state, origin]
    exact lent.lenders transfer member previous there
  · intro home number record found loan member
    by_cases below : number < (before home).recordsMade
    · obtain ⟨previous, there, follows⟩ := (evolves home).old number record found below
      rw [follows.receipts] at member
      rw [follows.imported, follows.origin]
      exact lent.records home number previous there loan member
    · obtain ⟨_, fresh⟩ := (evolves home).new number record found (Nat.le_of_not_lt below)
      rw [fresh.receipts] at member
      cases member
  · exact lent.hits
  · intro home entry member loan inside
    exact lent.lends home entry (older member inside) loan inside
  · intro home entry member loan inside record found
    obtain ⟨transfer, known, _, lender, _⟩ := lent.lends home entry (older member inside) loan
      inside
    have found' : (after transfer.lender.registry).executions.get? transfer.lender.number
        = some record := by
      rw [lender]
      exact found
    obtain ⟨previous, there, state, _⟩ := still known found'
    rw [lender] at there
    rw [state]
    exact lent.results home entry (older member inside) loan inside previous there
  · intro home queue queued loan member
    obtain ⟨entry, known, inside⟩ := lent.queued home queue queued loan member
    obtain ⟨more, made, _⟩ := (evolves home).lends
    exact ⟨entry, made ▸ List.mem_append_left more known, inside⟩

theorem Revoked.evolves (revoked : Revoked before loans hits tasks)
    (lent : Lent before words transfers hits tasks)
    (evolves : ∀ home, Evolves home (before home) (after home))
    : Revoked after loans hits tasks := by
  intro home entry member aborted loan inside released
  obtain ⟨more, made, bare⟩ := (evolves home).lends
  rw [made] at member
  rcases List.mem_append.mp member with earlier | later
  · obtain ⟨closed, refused⟩ := revoked home entry earlier aborted loan inside released
    refine ⟨closed, fun record found some_ index hit here oneShot below => ?_⟩
    obtain ⟨transfer, known, _, lender, _⟩ := lent.lends home entry earlier loan inside
    obtain ⟨madeLender, _⟩ := lent.made transfer known
    rw [lender] at madeLender
    obtain ⟨previous, there, follows⟩ := (evolves home).old loan.record record found madeLender
    refine refused previous there (fun none_ => some_ ?_) index hit here oneShot below
    have ended : previous.state.isRunning = false := by
      refine (lent.lenders transfer known previous ?_).2
      rw [lender]
      exact there
    rcases follows.state with same | ⟨running, _⟩
    · rw [same]
      exact none_
    · rw [running] at ended
      cases ended
  · rw [bare entry later] at inside
    cases inside

theorem Forwarded.grows (forwarded : Forwarded before hits)
    (grows : ∀ home, Grows home (before home) (after home))
    : Forwarded after hits := by
  have still {home number : ℕ} {record : Record Key} {origin : Name}
      (found : (after home).executions.get? number = some record)
      (replaces : record.replaces = some origin)
      : ∃ previous,
          (before home).executions.get? number = some previous
          ∧ previous.replaces = some origin := by
    by_cases below : number < (before home).recordsMade
    · obtain ⟨previous, there, follows⟩ := (grows home).old number record found below
      exact ⟨previous, there, follows.replaces ▸ replaces⟩
    · obtain ⟨_, fresh⟩ := (grows home).new number record found (Nat.le_of_not_lt below)
      rw [fresh.replaces] at replaces
      cases replaces
  constructor
  · intro home number record origin found replaces
    obtain ⟨previous, there, replaced⟩ := still found replaces
    exact forwarded.consumed home number previous origin there replaced
  · intro home other number next left right origin leftFound rightFound leftFor rightFor
    obtain ⟨leftBefore, leftThere, leftReplaced⟩ := still leftFound leftFor
    obtain ⟨rightBefore, rightThere, rightReplaced⟩ := still rightFound rightFor
    exact forwarded.single home other number next leftBefore rightBefore origin leftThere
      rightThere leftReplaced rightReplaced

variable [DecidableEq Key] {system : System Key Value} {home : ℕ} {registry : Registry Key Value}

/-- An operation that only its own registry sees. -/
theorem Linear.evolves (linear : Linear system) (accounted : registry.Accounted none)
    (evolves : Evolves home (system.registries home) registry)
    : Linear (system.setRegistry home registry) := by
  have everywhere (other : ℕ) : Evolves other (system.registries other)
      ((system.setRegistry home registry).registries other) := by
    rw [System.setRegistry]
    simp only [Function.update_apply]
    split
    · next same =>
        rw [same]
        exact evolves
    · exact (linear.accounted other).evolves_refl
  have grows (other : ℕ) := (everywhere other).toGrows
  refine ⟨fun other => ?_, linear.tied.grows grows, linear.exclusive, linear.placed.grows grows,
    linear.working, linear.lent.evolves everywhere, linear.revoked.evolves linear.lent everywhere,
    linear.forwarded.grows grows⟩
  rw [System.setRegistry]
  simp only [Function.update_apply]
  split
  · exact accounted
  · exact linear.accounted other

end Evolving

end SpeculativeAction.ProcessHandoff
