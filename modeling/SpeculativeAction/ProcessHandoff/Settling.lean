import SpeculativeAction.ProcessHandoff.Reservations

/-! How claims move from stage to stage while the records that they are on only lose results, and
that what holds between records, hits, loans and words is kept by such moves.
-/

namespace SpeculativeAction.ProcessHandoff

open SpeculativeAction.Library

variable {Key Value : Type}

-- Records that lose results

namespace Registry

section Settles

variable {inHand : Option ℕ}

/-- A record keeps its result or loses it. -/
structure Spends (before after : Record Key) : Prop where
  receipts : after.receipts = before.receipts
  imported : after.imported = before.imported
  origin : after.origin = before.origin
  replaces : after.replaces = before.replaces
  running : after.state.isRunning = before.state.isRunning
  result : after.state.result? = before.state.result? ∨ after.state.result? = none

theorem Spends.refl (record : Record Key) : Spends record record :=
  ⟨rfl, rfl, rfl, rfl, rfl, .inl rfl⟩

/-- A record of this registry's own, which may replace another one. -/
structure Own (home number : ℕ) (record : Record Key) : Prop where
  claimState : record.claimState = none
  receipts : record.receipts = []
  imported : record.imported = none
  origin : record.origin = ⟨home, number⟩

/-- Old records keep their results or lose them, and new ones are tied to no other. -/
structure Eases (home : ℕ) (before after : Registry Key Value) : Prop where
  recordsMade : before.recordsMade ≤ after.recordsMade
  loansMade : after.loansMade = before.loansMade
  lends : after.lends = before.lends
  old
    : ∀ number record,
        after.executions.get? number = some record → number < before.recordsMade
        → ∃ previous,
            before.executions.get? number = some previous ∧ Spends previous record
  new
    : ∀ number record,
        after.executions.get? number = some record → before.recordsMade ≤ number
        → number < after.recordsMade ∧ Own home number record

/-- Reservations stay as well. -/
structure Settles (home : ℕ) (before after : Registry Key Value) : Prop
    extends Eases home before after where
  claimState
    : ∀ number record previous,
        after.executions.get? number = some record
        → before.executions.get? number = some previous
        → record.claimState = previous.claimState

variable {home number : ℕ} {before middle after registry : Registry Key Value}
  {record : Record Key}

theorem Settles.sheds (settles : Settles home before middle) (sheds : Sheds middle after)
    : Settles home before after where
  claimState number record previous found :=
    settles.claimState number record previous (sheds.kept number record found)
  recordsMade := sheds.recordsMade.symm ▸ settles.recordsMade
  loansMade := sheds.loansMade.trans settles.loansMade
  lends := sheds.lends.trans settles.lends
  old number record found := settles.old number record (sheds.kept number record found)
  new number record found := sheds.recordsMade.symm ▸
    settles.new number record (sheds.kept number record found)

variable [DecidableEq Key]

theorem Accounted.settles_refl (accounted : registry.Accounted inHand)
    : Settles home registry registry where
  recordsMade := le_rfl
  loansMade := rfl
  lends := rfl
  claimState number record previous found there := by
    rw [Option.some.inj (found.symm.trans there)]
  old _ record found _ := ⟨record, found, .refl record⟩
  new number record found above := by
    rw [accounted.recordsMade number above] at found
    cases found

/-- One record changes, and nothing is made. -/
theorem Accounted.eases_set (accounted : registry.Accounted inHand)
    (found : registry.executions.get? number = some record) (after : Registry Key Value)
    (next : Record Key) (spends : Spends record next)
    (changed : after.executions = registry.executions.set number next)
    (made : after.recordsMade = registry.recordsMade) (loans : after.loansMade = registry.loansMade)
    (lends : after.lends = registry.lends)
    : Eases home registry after where
  recordsMade := made.ge
  loansMade := loans
  lends := lends
  old other left here below := by
    rcases (accounted.set_cases found (changed ▸ here)).2 with ⟨rfl, rfl⟩ | before
    · exact ⟨record, found, spends⟩
    · exact ⟨left, before, .refl left⟩
  new other left here above :=
    absurd (accounted.set_cases found (changed ▸ here)).1 (Nat.not_lt.mpr above)

theorem Accounted.settles_set (accounted : registry.Accounted inHand)
    (found : registry.executions.get? number = some record) (after : Registry Key Value)
    (next : Record Key) (spends : Spends record next)
    (reservation : next.claimState = record.claimState)
    (changed : after.executions = registry.executions.set number next)
    (made : after.recordsMade = registry.recordsMade) (loans : after.loansMade = registry.loansMade)
    (lends : after.lends = registry.lends)
    : Settles home registry after where
  toEases := accounted.eases_set found after next spends changed made loans lends
  claimState other left previous here there := by
    rw [changed, OrderedMap.get?_set] at here
    split at here
    · next same =>
        rw [same, found] at there
        rw [← Option.some.inj here, reservation, Option.some.inj there]
    · rw [Option.some.inj (here.symm.trans there)]

end Settles

end Registry

-- Invariants over records that lose results

section Losing

open Registry (Spends Own Eases Settles)

variable {before after : ℕ → Registry Key Value} {words : Name → Option ClaimWord}
  {loans : Name → LoanWord} {transfers : List (LentResult Key)} {hits : List Hit}
  {tasks : ℕ → Task} {next : Name → Option ClaimWord}

theorem RecordTied.spends {home number : ℕ} {previous record : Record Key}
    (tied : RecordTied words home number previous) (spends : Spends previous record)
    (reservation : record.claimState = previous.claimState)
    : RecordTied words home number record := by
  have kept (result : Result) (here : record.state.result? = some result)
      : previous.state.result? = some result := by
    rcases spends.result with same | gone
    · exact same ▸ here
    · rw [gone] at here
      cases here
  constructor
  · intro word shared
    rw [spends.origin]
    exact tied.reservation word (reservation ▸ shared)
  · intro own
    rw [spends.origin]
    exact tied.own (spends.imported ▸ own)
  · intro imported
    rw [reservation, spends.origin]
    exact tied.shares (spends.imported ▸ imported)
  · intro imported
    rw [reservation]
    exact tied.plain (spends.imported ▸ imported)
  · intro oneShot result imported here
    exact tied.kind oneShot result (spends.imported ▸ imported) (kept result here)
  · intro result here reusable
    rw [reservation]
    exact tied.unshared result (kept result here) reusable
  · intro own running
    rw [reservation]
    exact tied.running (spends.imported ▸ own) (spends.running ▸ running)
  · intro allocated
    rw [reservation]
    exact tied.allocated allocated

theorem RecordTied.of_own {home number : ℕ} {record : Record Key} (own : Own home number record)
    (unmade : words ⟨home, number⟩ = none)
    : RecordTied words home number record where
  reservation word shared := by
    rw [own.claimState] at shared
    cases shared
  own _ := own.origin
  shares imported := by
    rw [own.imported] at imported
    cases imported
  plain _ := own.claimState
  kind oneShot result imported := by
    rw [own.imported] at imported
    cases imported
  unshared _ _ _ := own.claimState
  running _ _ := own.claimState
  allocated made := absurd unmade made

theorem Tied.settles (tied : Tied before words)
    (settles : ∀ home, Settles home (before home) (after home))
    : Tied after words where
  records home number record found := by
    by_cases below : number < (before home).recordsMade
    · obtain ⟨previous, there, spends⟩ := (settles home).old number record found below
      exact (tied.records home number previous there).spends spends
        ((settles home).claimState number record previous found there)
    · obtain ⟨_, own⟩ := (settles home).new number record found (Nat.le_of_not_lt below)
      refine .of_own own (by_contra fun made => below ?_)
      exact tied.words ⟨home, number⟩ made
  words word made := (tied.words word made).trans_le (settles word.registry).recordsMade

/-- Only whether a reservation is there matters to records and loans. -/
theorem Tied.words_congr (tied : Tied before words)
    (same : ∀ word, next word = none ↔ words word = none)
    : Tied before next where
  records home number record found := by
    have old := tied.records home number record found
    exact {
      reservation := fun word shared => ⟨(old.reservation word shared).1,
        fun gone => (old.reservation word shared).2 ((same word).mp gone)⟩
      own := old.own
      shares := old.shares
      plain := old.plain
      kind := old.kind
      unshared := old.unshared
      running := old.running
      allocated := fun made => old.allocated fun gone => made ((same _).mpr gone)
    }
  words word made := tied.words word fun gone => made ((same word).mpr gone)

theorem Lent.eases (lent : Lent before words transfers hits tasks)
    (eases : ∀ home, Eases home (before home) (after home))
    : Lent after words transfers hits tasks := by
  have older {home : ℕ} {entry : Lend} (member : entry ∈ (after home).lends)
      : entry ∈ (before home).lends := (eases home).lends ▸ member
  constructor
  · exact lent.shared
  · exact lent.claims
  · intro transfer member
    obtain ⟨lender, loan⟩ := lent.made transfer member
    exact ⟨lender.trans_le (eases transfer.lender.registry).recordsMade,
      (eases transfer.loan.registry).loansMade ▸ loan⟩
  · exact lent.single
  · intro transfer member record found
    obtain ⟨previous, there, spends⟩ := (eases transfer.lender.registry).old
      transfer.lender.number record found (lent.made transfer member).1
    rw [spends.origin, spends.running]
    exact lent.lenders transfer member previous there
  · intro home number record found loan member
    by_cases below : number < (before home).recordsMade
    · obtain ⟨previous, there, spends⟩ := (eases home).old number record found below
      rw [spends.receipts] at member
      rw [spends.imported, spends.origin]
      exact lent.records home number previous there loan member
    · obtain ⟨_, own⟩ := (eases home).new number record found (Nat.le_of_not_lt below)
      rw [own.receipts] at member
      cases member
  · exact lent.hits
  · intro home entry member loan inside
    exact lent.lends home entry (older member) loan inside
  · intro home entry member loan inside record found
    obtain ⟨transfer, known, _, lender, _⟩ := lent.lends home entry (older member) loan inside
    have made := (lent.made transfer known).1
    rw [lender] at made
    obtain ⟨previous, there, spends⟩ := (eases home).old loan.record record found made
    rcases spends.result with same | gone
    · rw [same]
      exact lent.results home entry (older member) loan inside previous there
    · exact .inl gone
  · intro home queue queued loan member
    obtain ⟨entry, known, inside⟩ := lent.queued home queue queued loan member
    exact ⟨entry, (eases home).lends.symm ▸ known, inside⟩

theorem Lent.settles (lent : Lent before words transfers hits tasks)
    (settles : ∀ home, Settles home (before home) (after home))
    : Lent after words transfers hits tasks :=
  lent.eases fun home => (settles home).toEases

theorem Lent.words_congr (lent : Lent before words transfers hits tasks)
    (same : ∀ word, next word = none → words word = none)
    : Lent before next transfers hits tasks :=
  {
    lent with
    shared := fun transfer member => ⟨fun oneShot =>
      ⟨((lent.shared transfer member).1 oneShot).1,
        fun gone => ((lent.shared transfer member).1 oneShot).2 (same _ gone)⟩,
      (lent.shared transfer member).2⟩
  }

theorem Revoked.eases (revoked : Revoked before loans hits tasks)
    (lent : Lent before words transfers hits tasks)
    (eases : ∀ home, Eases home (before home) (after home))
    : Revoked after loans hits tasks := by
  intro home entry member aborted loan inside released
  have earlier : entry ∈ (before home).lends := (eases home).lends ▸ member
  obtain ⟨closed, refused⟩ := revoked home entry earlier aborted loan inside released
  refine ⟨closed, fun record found some_ index hit here oneShot below => ?_⟩
  obtain ⟨transfer, known, _, lender, _⟩ := lent.lends home entry earlier loan inside
  have made := (lent.made transfer known).1
  rw [lender] at made
  obtain ⟨previous, there, spends⟩ := (eases home).old loan.record record found made
  refine refused previous there (fun none_ => some_ ?_) index hit here oneShot below
  rcases spends.result with same | gone
  · rw [same]
    exact none_
  · exact gone

theorem Revoked.settles (revoked : Revoked before loans hits tasks)
    (lent : Lent before words transfers hits tasks)
    (settles : ∀ home, Settles home (before home) (after home))
    : Revoked after loans hits tasks :=
  revoked.eases lent fun home => (settles home).toEases

end Losing

-- Claims that move on

section Moving

/-- The same claim at another stage. -/
structure SameClaim (before after : Hit) : Prop where
  registry : after.registry = before.registry
  record : after.record = before.record
  result : after.result = before.result
  origin : after.origin = before.origin
  claimState : after.claimState = before.claimState
  receipts : after.receipts = before.receipts

theorem SameClaim.refl (hit : Hit) : SameClaim hit hit := ⟨rfl, rfl, rfl, rfl, rfl, rfl⟩

variable {before after : ℕ → Registry Key Value} {words : Name → Option ClaimWord}
  {loans : Name → LoanWord} {transfers : List (LentResult Key)} {hits : List Hit}
  {tasks : ℕ → Task} {index : ℕ} {hit next : Hit}

theorem get?_set_self (found : hits[index]? = some hit) (next : Hit)
    : (hits.set index next)[index]? = some next := by
  obtain ⟨bound, _⟩ := List.getElem?_eq_some_iff.mp found
  simp [bound]

/-- A list in which one claim moved. -/
theorem of_get?_set {other : ℕ} {later : Hit} (here : (hits.set index next)[other]? = some later)
    : other = index ∧ later = next ∨ other ≠ index ∧ hits[other]? = some later := by
  rw [List.getElem?_set] at here
  split at here
  · next same =>
      split at here
      · exact .inl ⟨same.symm, (Option.some.inj here).symm⟩
      · cases here
  · next different => exact .inr ⟨fun same => different same.symm, here⟩

theorem before_set (found : hits[index]? = some hit) (same : SameClaim hit next) {other : ℕ}
    {later : Hit} (here : (hits.set index next)[other]? = some later)
    : ∃ earlier, hits[other]? = some earlier ∧ SameClaim earlier later := by
  rcases of_get?_set here with ⟨rfl, rfl⟩ | ⟨_, there⟩
  · exact ⟨hit, found, same⟩
  · exact ⟨later, there, .refl later⟩

theorem Lent.setHit (lent : Lent before words transfers hits tasks)
    (found : hits[index]? = some hit) (same : SameClaim hit next)
    : Lent before words transfers (hits.set index next) tasks :=
  {
    lent with
    hits := fun other later here loan member => by
      obtain ⟨earlier, there, alike⟩ := before_set found same here
      rw [alike.origin, alike.result, alike.registry, alike.record]
      exact lent.hits other earlier there loan (alike.receipts ▸ member)
  }

/-- A call other than one that releases loans queues none. -/
theorem Lent.setTask (lent : Lent before words transfers hits tasks) {home : ℕ} {task : Task}
    (queued
      : ∀ loans,
          task = .settlingLoans loans
          → ∀ loan ∈ loans, ∃ entry ∈ (before home).lends, loan ∈ entry.loans)
    : Lent before words transfers hits (Function.update tasks home task) :=
  {
    lent with
    queued := fun other loans settling loan member => by
      rw [Function.update_apply] at settling
      split at settling
      · next same => exact same ▸ queued loans settling loan member
      · exact lent.queued other loans settling loan member
  }

/-- A claim that takes no more than it had stays the only one. -/
theorem Exclusive.alone_set (exclusive : Exclusive words hits) (found : hits[index]? = some hit)
    (same : SameClaim hit next) (active : next.isActive = true → hit.isActive = true)
    {first second : ℕ} {left right : Hit} (leftHere : (hits.set index next)[first]? = some left)
    (rightHere : (hits.set index next)[second]? = some right) (leftActive : left.isActive = true)
    (rightActive : right.isActive = true) (version : left.origin = right.origin)
    : first = second := by
  have earlier {other : ℕ} {later : Hit} (here : (hits.set index next)[other]? = some later)
      (taken : later.isActive = true)
      : ∃ earlier,
          hits[other]? = some earlier ∧ earlier.isActive = true
          ∧ later.origin = earlier.origin := by
    rcases of_get?_set here with ⟨rfl, rfl⟩ | ⟨_, there⟩
    · exact ⟨hit, found, active taken, same.origin⟩
    · exact ⟨later, there, taken, rfl⟩
  obtain ⟨leftBefore, leftThere, leftTaken, leftOrigin⟩ := earlier leftHere leftActive
  obtain ⟨rightBefore, rightThere, rightTaken, rightOrigin⟩ := earlier rightHere rightActive
  exact exclusive.alone first second leftBefore rightBefore leftThere rightThere leftTaken
    rightTaken (leftOrigin ▸ rightOrigin ▸ version)

theorem Exclusive.setHit (exclusive : Exclusive words hits) (found : hits[index]? = some hit)
    (same : SameClaim hit next) (tied : HitTied words next)
    (active : next.isActive = true → hit.isActive = true)
    : Exclusive words (hits.set index next) where
  tied other later here := by
    rcases of_get?_set here with ⟨rfl, rfl⟩ | ⟨_, there⟩
    · exact tied
    · exact exclusive.tied other later there
  alone _ _ _ _ := exclusive.alone_set found same active

/-- Nothing is known of a settled claim's record but that a consumed result is gone. -/
def Unbound (hit : Hit) (record : Record Key) : Prop :=
  hit.result.oneShot = true
  → hit.stage.isSettled = true
    ∧ (hit.stage = .settled true → hit.claimState = none → record.state.result? = none)

/-- Claims move on and records change, but those of claims that are not settled. -/
theorem Placed.moves (placed : Placed before hits) {later : List Hit}
    (made : ∀ home, (before home).recordsMade ≤ (after home).recordsMade)
    (moved
      : ∀ (index : ℕ) next,
          later[index]? = some next
          → ∃ hit,
              hits[index]? = some hit ∧ SameClaim hit next
              ∧ (next.stage = hit.stage ∨ hit.stage.isSettled = false)
              ∧ ∀ record,
                  (after hit.registry).executions.get? hit.record = some record
                  → ∃ previous,
                      (before hit.registry).executions.get? hit.record = some previous
                      ∧ record.origin = previous.origin
                      ∧ record.state.isRunning = previous.state.isRunning
                      ∧ (record.state = previous.state
                            ∧ (next.stage = hit.stage ∨ next.stage.isSettled = false)
                          ∨ Unbound next record))
    : Placed after later := by
  constructor
  · intro index next here
    obtain ⟨hit, there, same, _⟩ := moved index next here
    rw [same.record, same.registry]
    exact (placed.made index hit there).trans_le (made hit.registry)
  · intro index next record here found
    obtain ⟨hit, there, same, _, records⟩ := moved index next here
    rw [same.record, same.registry] at found
    obtain ⟨previous, was, origin, running, _⟩ := records record found
    rw [origin, running, same.origin]
    exact placed.ended index hit previous there was
  · intro index next record here oneShot still found
    obtain ⟨hit, there, same, staged, records⟩ := moved index next here
    rw [same.record, same.registry] at found
    obtain ⟨previous, was, _, _, ⟨state, _⟩ | unbound⟩ := records record found
    · rw [state, same.result]
      exact placed.reserved index hit previous there (same.result ▸ oneShot)
        (staged.elim (fun staged => staged ▸ still) id) was
    · rw [(unbound oneShot).1] at still
      cases still
  · intro index next record here oneShot settled unshared found
    obtain ⟨hit, there, same, _, records⟩ := moved index next here
    rw [same.record, same.registry] at found
    obtain ⟨previous, was, _, _, ⟨state, staged⟩ | unbound⟩ := records record found
    · rw [state]
      refine placed.spent index hit previous there (same.result ▸ oneShot) ?_
        (same.claimState ▸ unshared) was
      rcases staged with staged | still
      · exact staged ▸ settled
      · rw [settled] at still
        cases still
    · exact (unbound oneShot).2 settled unshared
  · intro first second left right leftHere rightHere leftOnce rightOnce leftStill rightStill
      registry record
    obtain ⟨leftHit, leftThere, leftSame, leftStaged, _⟩ := moved first left leftHere
    obtain ⟨rightHit, rightThere, rightSame, rightStaged, _⟩ := moved second right rightHere
    refine placed.alone first second leftHit rightHit leftThere rightThere
      (leftSame.result ▸ leftOnce) (rightSame.result ▸ rightOnce)
      (leftStaged.elim (fun staged => staged ▸ leftStill) id)
      (rightStaged.elim (fun staged => staged ▸ rightStill) id) ?_ ?_
    · rw [← leftSame.registry, ← rightSame.registry, registry]
    · rw [← leftSame.record, ← rightSame.record, record]

/-- A claim moves on without being settled. -/
theorem Placed.setHit (placed : Placed before hits) (found : hits[index]? = some hit)
    (same : SameClaim hit next) (unsettled : hit.stage.isSettled = false)
    (still : next.stage.isSettled = false)
    : Placed before (hits.set index next) := by
  refine placed.moves (fun _ => le_rfl) fun other later here => ?_
  rcases of_get?_set here with ⟨rfl, rfl⟩ | ⟨_, there⟩
  · exact ⟨hit, found, same, .inr unsettled,
      fun record here => ⟨record, here, rfl, rfl, .inl ⟨rfl, .inr still⟩⟩⟩
  · exact ⟨later, there, .refl later, .inl rfl,
      fun record here => ⟨record, here, rfl, rfl, .inl ⟨rfl, .inl rfl⟩⟩⟩

/-- Records that stay in their state. -/
theorem Placed.still (placed : Placed before hits)
    (made : ∀ home, (before home).recordsMade ≤ (after home).recordsMade)
    (still
      : ∀ home number record,
          (after home).executions.get? number = some record → number < (before home).recordsMade
          → ∃ previous,
              (before home).executions.get? number = some previous
              ∧ record.state = previous.state ∧ record.origin = previous.origin)
    : Placed after hits := by
  refine placed.moves made fun index hit here => ⟨hit, here, .refl hit, .inl rfl, ?_⟩
  intro record found
  obtain ⟨previous, there, state, origin⟩ := still hit.registry hit.record record found
    (placed.made index hit here)
  exact ⟨previous, there, origin, by rw [state], .inl ⟨state, .inl rfl⟩⟩

theorem Forwarded.setHit (forwarded : Forwarded before hits) (found : hits[index]? = some hit)
    (unsettled : hit.stage.isSettled = false) (next : Hit)
    : Forwarded before (hits.set index next) where
  consumed home number record origin here replaces := by
    obtain ⟨other, older, there, registry, version, oneShot, settled⟩ :=
      forwarded.consumed home number record origin here replaces
    have different : index ≠ other := by
      rintro rfl
      rw [found] at there
      rw [Option.some.inj there, settled] at unsettled
      cases unsettled
    exact ⟨other, older, by rw [List.getElem?_set_ne different, there], registry, version, oneShot,
      settled⟩
  single := forwarded.single

/-- Records that replace no more than they did. -/
theorem Forwarded.still (forwarded : Forwarded before hits)
    (still
      : ∀ home number record,
          (after home).executions.get? number = some record → record.replaces ≠ none
          → ∃ previous,
              (before home).executions.get? number = some previous
              ∧ record.replaces = previous.replaces)
    : Forwarded after hits := by
  constructor
  · intro home number record origin found replaces
    obtain ⟨previous, there, same⟩ := still home number record found (by rw [replaces]; nofun)
    exact forwarded.consumed home number previous origin there (same ▸ replaces)
  · intro home other number next left right origin leftFound rightFound leftFor rightFor
    obtain ⟨leftBefore, leftThere, leftSame⟩ := still home number left leftFound
      (by rw [leftFor]; nofun)
    obtain ⟨rightBefore, rightThere, rightSame⟩ := still other next right rightFound
      (by rw [rightFor]; nofun)
    exact forwarded.single home other number next leftBefore rightBefore origin leftThere
      rightThere (leftSame ▸ leftFor) (rightSame ▸ rightFor)

end Moving

-- Threads in their calls

section Calls

variable {registries : ℕ → Registry Key Value} {loans later : Name → LoanWord}
  {hits : List Hit} {tasks : ℕ → Task} {index : ℕ} {hit next : Hit} {task : Task}

/-- What is known of a claim that its thread is not in a call about. -/
theorem Attended.elsewhere {other : Task} (attended : Attended loans index hit task)
    (away : task.hit? ≠ some index) (still : other.hit? ≠ some index)
    (consumed : ∀ loan, (loans loan).consumed = true → (later loan).consumed = true)
    : Attended later index hit other where
  claims stage := by
    obtain ⟨receipts, same⟩ := attended.claims stage
    exact absurd (congrArg Task.hit? same) away
  leaves consumed stage := by
    obtain ⟨forward, marks, same⟩ := attended.leaves consumed stage
    exact absurd (congrArg Task.hit? same) away
  finishes consumed stage := by
    obtain ⟨forward, same⟩ := attended.finishes consumed stage
    exact absurd (congrArg Task.hit? same) away
  claiming receipts same := absurd (congrArg Task.hit? same) still
  leaving forward marks same := absurd (congrArg Task.hit? same) still
  finishing forward same := absurd (congrArg Task.hit? same) still
  pending := attended.pending
  within := attended.within
  marked left taken loan member := consumed loan (attended.marked left taken loan member)

/-- More loans may be marked. -/
theorem Attended.mono (attended : Attended loans index hit task)
    (consumed : ∀ loan, (loans loan).consumed = true → (later loan).consumed = true)
    : Attended later index hit task :=
  {
    attended with
    leaving := fun forward marks same => by
      obtain ⟨taken, stage, all, known, marked⟩ := attended.leaving forward marks same
      exact ⟨taken, stage, all, known, fun used loan member =>
        (marked used loan member).imp_right (consumed loan)⟩
    marked := fun left taken loan member => consumed loan (attended.marked left taken loan member)
  }

/-- One thread moves on with the claim that its call is about, or that it begins a call about. -/
theorem Working.move (working : Working tasks hits loans) (found : hits[index]? = some hit)
    (same : SameClaim hit next)
    (before : ∀ other, (tasks hit.registry).hit? = some other → other = index)
    (after : ∀ other, task.hit? = some other → other = index)
    (attended : Attended later index next task)
    (readers
      : ∀ loan,
          (later loan).readers + hit.held.count loan
            = (loans loan).readers + next.held.count loan)
    (consumed : ∀ loan, (loans loan).consumed = true → (later loan).consumed = true)
    (consumers
      : ∀ loan,
          (later loan).consumed = true
          → (loans loan).consumed = true
            ∨ next.stage.isConsumed = true ∧ loan ∈ next.receipts)
    (taken : hit.stage.isConsumed = true → next.stage.isConsumed = true)
    : Working (Function.update tasks hit.registry task) (hits.set index next) later := by
  have self := get?_set_self found next
  constructor
  · intro home other named
    rw [Function.update_apply] at named
    split at named
    · next here =>
        obtain rfl := after other named
        exact ⟨next, self, same.registry.trans here.symm⟩
    · next elsewhere =>
        obtain ⟨owner, there, registry⟩ := working.named home other named
        have different : index ≠ other := by
          rintro rfl
          rw [found] at there
          exact elsewhere (by rw [← registry, ← Option.some.inj there])
        exact ⟨owner, by rw [List.getElem?_set_ne different, there], registry⟩
  · intro other moved here
    rcases of_get?_set here with ⟨rfl, rfl⟩ | ⟨different, there⟩
    · rw [same.registry, Function.update_self]
      exact attended
    · have old := working.attended other moved there
      rw [Function.update_apply]
      split
      · next home =>
          rw [home] at old
          exact old.elsewhere (fun named => different (before other named))
            (fun named => different (after other named)) consumed
      · exact old.mono consumed
  · intro loan
    have balance := sum_map_set (fun hit : Hit => hit.held.count loan) next found
    have counted := working.readers loan
    have change := readers loan
    omega
  · intro loan used
    rcases consumers loan used with earlier | ⟨now, member⟩
    · obtain ⟨other, owner, there, used, member⟩ := working.consumers loan earlier
      by_cases different : index = other
      · subst different
        rw [found] at there
        obtain rfl := Option.some.inj there
        exact ⟨index, next, self, taken used, same.receipts ▸ member⟩
      · exact ⟨other, owner, by rw [List.getElem?_set_ne different, there], used, member⟩
    · exact ⟨index, next, self, now, member⟩

/-- Words whose readers and consumed bits stay, under the releases of a lend. -/
theorem Working.release (working : Working tasks hits loans) {home : ℕ}
    (before : (tasks home).hit? = none) (after : task.hit? = none)
    (readers : ∀ loan, (later loan).readers = (loans loan).readers)
    (consumed : ∀ loan, (later loan).consumed = (loans loan).consumed)
    : Working (Function.update tasks home task) hits later := by
  have kept (loan : Name) (used : (loans loan).consumed = true) : (later loan).consumed = true :=
    (consumed loan).trans used
  constructor
  · intro other index named
    rw [Function.update_apply] at named
    split at named
    · rw [after] at named
      cases named
    · exact working.named other index named
  · intro index hit here
    have old := working.attended index hit here
    rw [Function.update_apply]
    split
    · next same =>
        rw [same] at old
        exact old.elsewhere (by rw [before]; nofun) (by rw [after]; nofun) kept
    · exact old.mono kept
  · intro loan
    rw [readers]
    exact working.readers loan
  · intro loan used
    exact working.consumers loan (consumed loan ▸ used)

/-- Claims move on from refused to refused, and words that are closed stay so. -/
theorem Revoked.moves (revoked : Revoked registries loans hits tasks) {next : ℕ → Task}
    {moved : List Hit}
    (queued : ∀ home loan, (tasks home).isQueued loan → (next home).isQueued loan)
    (closed : ∀ loan, (loans loan).closed = true → (later loan).closed = true)
    (refused
      : ∀ (index : ℕ) hit loan,
          moved[index]? = some hit → (loans loan).closed = true → loan ∈ hit.receipts
          → Refused next index hit loan
            ∨ ∃ earlier,
                hits[index]? = some earlier ∧ SameClaim earlier hit
                ∧ (Refused tasks index earlier loan → Refused next index hit loan))
    : Revoked registries later moved next := by
  intro home entry member aborted loan inside released
  obtain ⟨shut, old⟩ := revoked home entry member aborted loan inside
    fun waiting => released (queued home loan waiting)
  refine ⟨closed _ shut, fun record found some_ index hit here oneShot below => ?_⟩
  rcases refused index hit loan.claims here shut below with now | ⟨earlier, there, same, keeps⟩
  · exact now
  · exact keeps (old record found some_ index earlier there (same.result ▸ oneShot)
      (same.receipts ▸ below))

/-- Another thread moves on, or this one with another claim. -/
theorem Refused.elsewhere {home : ℕ} {loan : Name} (refused : Refused tasks index hit loan)
    (away : (tasks home).hit? ≠ some index)
    : Refused (Function.update tasks home task) index hit loan := by
  rcases refused with ⟨stage, receipts, counting, left⟩ | gone
  · refine .inl ⟨stage, receipts, ?_, left⟩
    rw [Function.update_apply]
    split
    · next same =>
        rw [same] at counting
        exact absurd (congrArg Task.hit? counting) away
    · exact counting
  · exact .inr gone

end Calls

end SpeculativeAction.ProcessHandoff
