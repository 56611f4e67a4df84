import SpeculativeAction.ProcessHandoff.Progress

/-! Loans: results are offered and received, and the end of a lend releases its loans one by one.
-/

namespace SpeculativeAction.ProcessHandoff

open SpeculativeAction.Library

variable {Key Value : Type}

-- Results are received

section Receiving

/-- One record is made in one registry. -/
structure Adds (home : ℕ) (record : Record Key) (before after : ℕ → Registry Key Value)
    : Prop where
  parts
    : ∀ other number left,
        (after other).executions.get? number = some left
        → other = home ∧ number = (before home).recordsMade ∧ left = record
          ∨ number < (before other).recordsMade
            ∧ (before other).executions.get? number = some left
  recordsMade : ∀ other, (before other).recordsMade ≤ (after other).recordsMade
  lends : ∀ other, (after other).lends = (before other).lends
  loansMade : ∀ other, (after other).loansMade = (before other).loansMade

variable {before after : ℕ → Registry Key Value} {words : Name → Option ClaimWord}
  {loans : Name → LoanWord} {transfers : List (LentResult Key)} {hits : List Hit}
  {tasks : ℕ → Task} {home : ℕ} {record : Record Key}

theorem adds_reserve [DecidableEq Key] (accounted : ∀ other, (before other).Accounted none)
    (home : ℕ) (record : Record Key)
    : Adds home record before
        (Function.update before home ((before home).reserve record)) := by
  refine ⟨fun other number left found => ?_, fun other => ?_, fun other => ?_, fun other => ?_⟩
  · have below (there : (before other).executions.get? number = some left)
        : number < (before other).recordsMade := (accounted other).made there
    rw [Function.update_apply] at found
    split at found
    · next same =>
        subst same
        rw [Registry.reserve, OrderedMap.get?_set] at found
        split at found
        · next last => exact .inl ⟨rfl, last, (Option.some.inj found).symm⟩
        · exact .inr ⟨below found, found⟩
    · exact .inr ⟨below found, found⟩
  all_goals
    rw [Function.update_apply]
    split
  · next same => exact same ▸ Nat.le_succ _
  · exact le_rfl
  · next same => exact same ▸ rfl
  · rfl
  · next same => exact same ▸ rfl
  · rfl

theorem Tied.adds (tied : Tied before words) (adds : Adds home record before after)
    (own : RecordTied words home (before home).recordsMade record)
    : Tied after words where
  records other number left found := by
    rcases adds.parts other number left found with ⟨rfl, rfl, rfl⟩ | ⟨_, there⟩
    · exact own
    · exact tied.records other number left there
  words word made := (tied.words word made).trans_le (adds.recordsMade word.registry)

theorem Placed.adds (placed : Placed before hits) (adds : Adds home record before after)
    : Placed after hits := by
  refine placed.still adds.recordsMade fun other number left found below => ?_
  rcases adds.parts other number left found with ⟨rfl, rfl, _⟩ | ⟨_, there⟩
  · exact absurd below (Nat.lt_irrefl _)
  · exact ⟨left, there, rfl, rfl⟩

theorem Forwarded.adds (forwarded : Forwarded before hits) (adds : Adds home record before after)
    (replaces : record.replaces = none)
    : Forwarded after hits := by
  refine forwarded.still fun other number left found some_ => ?_
  rcases adds.parts other number left found with ⟨_, _, rfl⟩ | ⟨_, there⟩
  · exact absurd replaces some_
  · exact ⟨left, there, rfl⟩

theorem Revoked.adds (revoked : Revoked before loans hits tasks)
    (lent : Lent before words transfers hits tasks) (adds : Adds home record before after)
    : Revoked after loans hits tasks := by
  intro other entry member aborted loan inside released
  rw [adds.lends] at member
  obtain ⟨closed, refused⟩ := revoked other entry member aborted loan inside released
  refine ⟨closed, fun left found some_ => ?_⟩
  obtain ⟨transfer, known, _, lender, _⟩ := lent.lends other entry member loan inside
  have made := (lent.made transfer known).1
  rw [lender] at made
  rcases adds.parts other loan.record left found with ⟨rfl, place, _⟩ | ⟨_, there⟩
  · exact absurd place made.ne
  · exact refused left there some_

theorem Lent.adds (lent : Lent before words transfers hits tasks)
    (adds : Adds home record before after)
    (below
      : ∀ loan ∈ record.receipts,
          ∃ oneShot,
            record.imported = some oneShot
            ∧ LentOf transfers loan record.origin oneShot ⟨home, (before home).recordsMade⟩)
    : Lent after words transfers hits tasks where
  shared := lent.shared
  claims := lent.claims
  made transfer member := by
    obtain ⟨lender, loan⟩ := lent.made transfer member
    exact ⟨lender.trans_le (adds.recordsMade transfer.lender.registry),
      adds.loansMade transfer.loan.registry ▸ loan⟩
  single := lent.single
  lenders transfer member left found := by
    have made := (lent.made transfer member).1
    rcases adds.parts transfer.lender.registry transfer.lender.number left found with
      ⟨registry, place, _⟩ | ⟨_, there⟩
    · rw [registry, place] at made
      exact absurd made (Nat.lt_irrefl _)
    · exact lent.lenders transfer member left there
  records other number left found := by
    rcases adds.parts other number left found with ⟨rfl, rfl, rfl⟩ | ⟨_, there⟩
    · exact below
    · exact lent.records other number left there
  hits := lent.hits
  lends other entry member := lent.lends other entry (adds.lends other ▸ member)
  results other entry member loan inside left found := by
    rw [adds.lends] at member
    obtain ⟨transfer, known, _, lender, _⟩ := lent.lends other entry member loan inside
    have made := (lent.made transfer known).1
    rw [lender] at made
    rcases adds.parts other loan.record left found with ⟨rfl, place, _⟩ | ⟨_, there⟩
    · exact absurd place made.ne
    · exact lent.results other entry member loan inside left there
  queued other queue queued loan member := by
    obtain ⟨entry, known, inside⟩ := lent.queued other queue queued loan member
    exact ⟨entry, (adds.lends other).symm ▸ known, inside⟩

/-- A received record shares the reservation of what was lent, below all of its loans. -/
theorem Linear.receive [DecidableEq Key] {system : System Key Value} {transfer : LentResult Key}
    (linear : Linear system) (member : transfer ∈ system.transfers) (home : ℕ)
    : Linear (system.setRegistry home ((system.registries home).reserve
        (Registry.importedRecord home (system.registries home) transfer))) := by
  have adds := adds_reserve linear.accounted home
    (Registry.importedRecord home (system.registries home) transfer)
  obtain ⟨oneShot, reusable⟩ := linear.lent.shared transfer member
  have unmade : system.words ⟨home, (system.registries home).recordsMade⟩ = none :=
    by_contra fun made => Nat.lt_irrefl _ (linear.tied.words _ made)
  refine ⟨linear.accounting ((linear.accounted home).reserve _ rfl rfl (add_zero _).symm),
    linear.tied.adds adds ?_, linear.exclusive, linear.placed.adds adds, linear.working,
    linear.lent.adds adds fun loan below => ?_, linear.revoked.adds linear.lent adds,
    linear.forwarded.adds adds rfl⟩
  · refine ⟨fun word shared => ?_, nofun, fun imported => ?_, fun imported => ?_, nofun, nofun,
      nofun, fun made => absurd unmade made⟩
    · change transfer.reservation = some word at shared
      cases kind : transfer.oneShot with
      | true =>
          obtain ⟨reservation, made⟩ := oneShot kind
          obtain rfl := Option.some.inj (reservation.symm.trans shared)
          exact ⟨rfl, made⟩
      | false =>
          rw [reusable kind] at shared
          cases shared
    · exact (oneShot (Option.some.inj imported)).1
    · exact reusable (Option.some.inj imported)
  · obtain ⟨other, known, same, origin, kind⟩ := linear.lent.claims transfer member loan below
    refine ⟨transfer.oneShot, rfl, other, known, same, origin, kind, fun lender => ?_⟩
    have made := (linear.lent.made other known).1
    rw [lender] at made
    exact Nat.lt_irrefl _ made

end Receiving

-- Results are offered

section Offering

variable {words : Name → Option ClaimWord} {hits : List Hit} {home number : ℕ}
  {record : Record Key} {result : Result}
  {lend : ℕ} {entry : Lend} {transfers : List (LentResult Key)}
  {registry : Registry Key Value}

/-- A reservation that nobody knew of is made available. -/
def withWord (words : Name → Option ClaimWord) (word : Name) : Name → Option ClaimWord :=
  Function.update words word (some .available)

theorem withWord_of_made {word other : Name} (made : words other ≠ none)
    : withWord words word other ≠ none := by
  rw [withWord, Function.update_apply]
  split
  · nofun
  · exact made

theorem withWord_of_ne {word other : Name} (unmade : words word = none) (made : words other ≠ none)
    : withWord words word other = words other :=
  Function.update_of_ne (fun same : other = word => made (same ▸ unmade)) _ _

/-- Records other than the one that got it do not see a new reservation. -/
theorem RecordTied.withWord {other place : ℕ} (tied : RecordTied words other place record)
    (elsewhere : (⟨other, place⟩ : Name) ≠ ⟨home, number⟩)
    : RecordTied (withWord words ⟨home, number⟩) other place record :=
  {
    tied with
    reservation := fun word shared =>
      ⟨(tied.reservation word shared).1, withWord_of_made (tied.reservation word shared).2⟩
    allocated := fun made => by
      rw [ProcessHandoff.withWord, Function.update_of_ne elsewhere] at made
      exact tied.allocated made
  }

/-- The record of a completed one-shot result that was made for it gets a reservation. -/
theorem RecordTied.share (tied : RecordTied words home number record)
    (state : record.state = .ended .completed (some result)) (oneShot : result.oneShot = true)
    (unshared : record.claimState = none)
    : RecordTied (ProcessHandoff.withWord words ⟨home, number⟩) home number
        { record with claimState := some ⟨home, number⟩ } := by
  obtain ⟨own, origin, unmade⟩ := tied.made_here state oneShot unshared
  have holds : record.state.result? = some result := by
    rw [state]
    rfl
  refine ⟨fun word same => ?_, fun _ => origin, fun imported => ?_, fun imported => ?_, tied.kind,
    fun other here reusable => ?_, fun _ running => ?_, fun _ => rfl⟩
  · rw [← Option.some.inj same]
    refine ⟨origin.symm, ?_⟩
    rw [ProcessHandoff.withWord, Function.update_self]
    nofun
  · rw [own] at imported
    cases imported
  · rw [own] at imported
    cases imported
  · rw [← Option.some.inj (holds.symm.trans here), oneShot] at reusable
    cases reusable
  · change record.state.isRunning = true at running
    rw [state] at running
    cases running

/-- Claims do not see a reservation made for a result that is in no claim. -/
theorem Exclusive.withWord (exclusive : Exclusive words hits) {word : Name}
    (unmade : words word = none)
    (free
      : ∀ (index : ℕ) hit,
          hits[index]? = some hit → hit.isActive = true → hit.origin ≠ word)
    : Exclusive (withWord words word) hits where
  tied index hit here := by
    have tied := exclusive.tied index hit here
    have same {other : Name} (shared : hit.claimState = some other)
        : ProcessHandoff.withWord words word other = words other :=
      withWord_of_ne unmade (tied.reservation other shared).2
    refine ⟨tied.plain, fun other shared => ?_, tied.own, fun holding other shared => ?_,
      fun left used other shared => ?_, fun active made => ?_, tied.empty⟩
    · exact ⟨(tied.reservation other shared).1, withWord_of_made (tied.reservation other shared).2⟩
    · rw [same shared]
      exact tied.held holding other shared
    · rw [same shared]
      exact tied.consumed left used other shared
    · refine tied.shares active ?_
      rwa [ProcessHandoff.withWord, Function.update_of_ne (free index hit here active)] at made
  alone := exclusive.alone

variable [DecidableEq Key] {system : System Key Value}

/-- A record of a completed one-shot result gets a reservation to share. -/
theorem Linear.share (linear : Linear system)
    (found : (system.registries home).executions.get? number = some record)
    (state : record.state = .ended .completed (some result)) (oneShot : result.oneShot = true)
    (unshared : record.claimState = none)
    : Linear
        {
          system.setRegistry home ((system.registries home).setRecord number
            { record with claimState := some ⟨home, number⟩ }) with
          words := withWord system.words ⟨home, number⟩
        } := by
  have accounted := linear.accounted home
  have tied := linear.tied.records home number record found
  obtain ⟨own, origin, unmade⟩ := tied.made_here state oneShot unshared
  have kept : ((system.registries home).setRecord number
      { record with claimState := some ⟨home, number⟩ }).Accounted none :=
    accounted.setRecord found ⟨rfl, rfl, rfl, rfl⟩
  have ease : Registry.Eases home (system.registries home)
      ((system.registries home).setRecord number
        { record with claimState := some ⟨home, number⟩ }) :=
    accounted.eases_set found _ { record with claimState := some ⟨home, number⟩ }
      ⟨rfl, rfl, rfl, rfl, rfl, .inl rfl⟩ rfl rfl rfl rfl
  have eases (other : ℕ) : Registry.Eases other (system.registries other)
      (Function.update system.registries home ((system.registries home).setRecord number
        { record with claimState := some ⟨home, number⟩ }) other) := by
    rw [Function.update_apply]
    split
    · next same => exact same ▸ ease
    · exact ((linear.accounted other).settles_refl).toEases
  -- The record with its reservation, or one that is as it was.
  have parts {other place : ℕ} {left : Record Key}
      (here : (Function.update system.registries home ((system.registries home).setRecord number
        { record with claimState := some ⟨home, number⟩ }) other).executions.get? place
        = some left)
      : other = home ∧ place = number ∧ left = { record with claimState := some ⟨home, number⟩ }
          ∨ (⟨other, place⟩ : Name) ≠ ⟨home, number⟩
            ∧ (system.registries other).executions.get? place = some left := by
    rw [Function.update_apply] at here
    split at here
    · next same =>
        subst same
        rw [Registry.setRecord, OrderedMap.get?_set] at here
        split at here
        · next last => exact .inl ⟨rfl, last, (Option.some.inj here).symm⟩
        · next apart => exact .inr ⟨fun same => apart (Name.mk.inj same).2, here⟩
    · next apart => exact .inr ⟨fun same => apart (Name.mk.inj same).1, here⟩
  have made := accounted.made found
  refine ⟨linear.accounting kept, ⟨fun other place left here => ?_, fun word there => ?_⟩,
    linear.exclusive.withWord unmade fun index hit =>
      linear.exclusive.unreserved linear.placed found state unmade,
    linear.placed.still (fun other => (eases other).recordsMade) fun other place left here _ => ?_,
    linear.working, (linear.lent.eases eases).words_congr fun word gone => ?_,
    linear.revoked.eases linear.lent eases,
    linear.forwarded.eases eases (linear.accounting kept) (made_update rfl)⟩
  · rcases parts here with ⟨rfl, rfl, rfl⟩ | ⟨elsewhere, there⟩
    · exact tied.share state oneShot unshared
    · exact (linear.tied.records other place left there).withWord elsewhere
  · refine Nat.lt_of_lt_of_le ?_ (eases word.registry).recordsMade
    by_cases same : word = ⟨home, number⟩
    · rw [same]
      exact made
    · refine linear.tied.words word ?_
      change withWord system.words ⟨home, number⟩ word ≠ none at there
      rwa [withWord, Function.update_of_ne same] at there
  · rcases parts here with ⟨rfl, rfl, rfl⟩ | ⟨_, there⟩
    · exact ⟨record, found, rfl, rfl⟩
    · exact ⟨left, there, rfl, rfl⟩
  · exact by_contra fun there => withWord_of_made there gone

omit [DecidableEq Key] in
theorem Tied.congr {before after : ℕ → Registry Key Value} (tied : Tied before words)
    (executions : ∀ other, (after other).executions = (before other).executions)
    (made : ∀ other, (after other).recordsMade = (before other).recordsMade)
    : Tied after words where
  records other place left here := tied.records other place left (executions other ▸ here)
  words word there := (made word.registry).symm ▸ tied.words word there

/-- The entry of a lend with one more loan. -/
theorem mem_modify {lends : List Lend} {other : Lend} {change : Lend → Lend}
    (found : lends[lend]? = some entry) (member : other ∈ lends)
    : other ∈ lends.modify lend change
      ∨ other = entry ∧ change entry ∈ lends.modify lend change := by
  obtain ⟨place, here⟩ := List.mem_iff_getElem?.mp member
  by_cases same : lend = place
  · subst same
    refine .inr ⟨Option.some.inj (here.symm.trans found), List.mem_iff_getElem?.mpr ⟨lend, ?_⟩⟩
    rw [List.getElem?_modify, found]
    simp
  · refine .inl (List.mem_iff_getElem?.mpr ⟨place, ?_⟩)
    rw [List.getElem?_modify, here]
    simp [same]

theorem of_mem_modify {lends : List Lend} {other : Lend} {change : Lend → Lend}
    (found : lends[lend]? = some entry) (member : other ∈ lends.modify lend change)
    : other = change entry ∨ other ∈ lends := by
  obtain ⟨place, here⟩ := List.mem_iff_getElem?.mp member
  rw [List.getElem?_modify] at here
  obtain ⟨earlier, there, same⟩ := Option.map_eq_some_iff.mp here
  split at same
  · next here =>
      subst here
      rw [found] at there
      exact .inl (Option.some.inj there ▸ same.symm)
  · exact .inr (List.mem_iff_getElem?.mpr ⟨place, same ▸ there⟩)

omit [DecidableEq Key] in
theorem LentOf.append {loan origin borrower : Name} {oneShot : Bool}
    (lent : LentOf transfers loan origin oneShot borrower) (more : List (LentResult Key))
    : LentOf (transfers ++ more) loan origin oneShot borrower := by
  obtain ⟨transfer, known, facts⟩ := lent
  exact ⟨transfer, List.mem_append_left _ known, facts⟩

/-- What `offer` gives away of a record. -/
def lentOf (home : ℕ) (registry : Registry Key Value) (number : ℕ) (record : Record Key)
    (result : Result)
    : LentResult Key where
  key := record.key
  executablePath := record.executablePath
  scope := record.scope
  oneShot := result.oneShot
  reservation := record.claimState
  claims := record.receipts ++ [⟨home, registry.loansMade⟩]
  loan := ⟨home, registry.loansMade⟩
  lender := ⟨home, number⟩
  origin := record.origin

/-- A registry that notes a loan in one of its lends. -/
def noted (home : ℕ) (registry : Registry Key Value) (lend number : ℕ) (result : Result)
    : Registry Key Value :=
  {
    registry with
    lends := registry.lends.modify lend fun entry =>
      { entry with loans := entry.loans ++ [⟨number, result, ⟨home, registry.loansMade⟩⟩] }
    loansMade := registry.loansMade + 1
  }

/-- One lend in one registry has one more loan. -/
structure Notes (home : ℕ) (loan : Loan) (before after : ℕ → Registry Key Value) : Prop where
  executions : ∀ other, (after other).executions = (before other).executions
  recordsMade : ∀ other, (after other).recordsMade = (before other).recordsMade
  loansMade : ∀ other, (before other).loansMade ≤ (after other).loansMade
  last : (before home).loansMade < (after home).loansMade
  lends
    : ∀ other, ∀ entry ∈ (after other).lends,
        entry ∈ (before other).lends
        ∨ other = home ∧ entry.aborted = false
          ∧ ∃ earlier ∈ (before home).lends, entry.loans = earlier.loans ++ [loan]
  kept
    : ∀ other, ∀ entry ∈ (before other).lends,
        ∃ later ∈ (after other).lends, ∀ loan ∈ entry.loans, loan ∈ later.loans

omit [DecidableEq Key] in
theorem notes_noted {registries : ℕ → Registry Key Value}
    (lending : (registries home).lends[lend]? = some entry) (opened : entry.aborted = false)
    (number : ℕ) (result : Result)
    : Notes home ⟨number, result, ⟨home, (registries home).loansMade⟩⟩ registries
        (Function.update registries home
          (noted home (registries home) lend number result)) := by
  have here := List.mem_of_getElem? lending
  refine ⟨fun other => ?_, fun other => ?_, fun other => ?_, ?_, fun other later member => ?_,
    fun other earlier member => ?_⟩
  · rw [Function.update_apply]
    split
    · next same => exact same ▸ rfl
    · rfl
  · rw [Function.update_apply]
    split
    · next same => exact same ▸ rfl
    · rfl
  · rw [Function.update_apply]
    split
    · next same => exact same ▸ Nat.le_succ _
    · exact le_rfl
  · rw [Function.update_self]
    exact Nat.lt_succ_self _
  · rw [Function.update_apply] at member
    split at member
    · next same =>
        subst same
        rcases of_mem_modify lending member with rfl | old
        · exact .inr ⟨rfl, opened, entry, here, rfl⟩
        · exact .inl old
    · exact .inl member
  · rw [Function.update_apply]
    split
    · next same =>
        subst same
        rcases mem_modify lending member with kept | ⟨rfl, changed⟩
        · exact ⟨earlier, kept, fun _ inside => inside⟩
        · exact ⟨_, changed, fun _ inside => List.mem_append_left _ inside⟩
    · exact ⟨earlier, member, fun _ inside => inside⟩

omit [DecidableEq Key] in
theorem Lent.notes {before after : ℕ → Registry Key Value} {tasks : ℕ → Task} {loan : Loan}
    (lent : Lent before words transfers hits tasks) (notes : Notes home loan before after)
    {transfer : LentResult Key} (fresh : transfer.loan = ⟨home, (before home).loansMade⟩)
    (same : transfer.loan = loan.claims) (lender : transfer.lender = ⟨home, loan.record⟩)
    (kind : transfer.oneShot = loan.result.oneShot)
    (found : (before home).executions.get? loan.record = some record)
    (holds : record.state.result? = some loan.result) (ended : record.state.isRunning = false)
    (made : loan.record < (before home).recordsMade) (origin : transfer.origin = record.origin)
    (claims : transfer.claims = record.receipts ++ [transfer.loan])
    (imported : ∀ oneShot, record.imported = some oneShot → oneShot = transfer.oneShot)
    (reservation
      : (transfer.oneShot = true
          → transfer.reservation = some transfer.origin ∧ words transfer.origin ≠ none)
        ∧ (transfer.oneShot = false → transfer.reservation = none))
    : Lent after words (transfers ++ [transfer]) hits tasks := by
  have unused {other : LentResult Key} (member : other ∈ transfers)
      : other.loan ≠ transfer.loan := by
    intro clash
    have old := (lent.made other member).2
    rw [clash, fresh] at old
    exact Nat.lt_irrefl _ old
  have last : transfer ∈ transfers ++ [transfer] :=
    List.mem_append_right _ (List.mem_singleton.mpr rfl)
  constructor
  · intro other member
    rcases List.mem_append.mp member with old | new
    · exact lent.shared other old
    · rw [List.mem_singleton.mp new]
      exact reservation
  · intro other member above inside
    rcases List.mem_append.mp member with old | new
    · obtain ⟨parent, known, facts⟩ := lent.claims other old above inside
      exact ⟨parent, List.mem_append_left _ known, facts⟩
    · rw [List.mem_singleton.mp new] at inside ⊢
      rw [claims] at inside
      rcases List.mem_append.mp inside with receipt | own
      · obtain ⟨oneShot, received, parent, known, here, version, parentKind, _⟩ :=
          lent.records home loan.record record found above receipt
        exact ⟨parent, List.mem_append_left _ known, here, version.trans origin.symm,
          parentKind.trans (imported oneShot received)⟩
      · exact ⟨transfer, last, (List.mem_singleton.mp own).symm, rfl, rfl⟩
  · intro other member
    rcases List.mem_append.mp member with old | new
    · obtain ⟨place, number⟩ := lent.made other old
      exact ⟨(notes.recordsMade other.lender.registry).symm ▸ place,
        number.trans_le (notes.loansMade other.loan.registry)⟩
    · rw [List.mem_singleton.mp new, lender, fresh]
      exact ⟨(notes.recordsMade home).symm ▸ made, notes.last⟩
  · intro left leftMember right rightMember clash
    rcases List.mem_append.mp leftMember with leftOld | leftNew
    · rcases List.mem_append.mp rightMember with rightOld | rightNew
      · exact lent.single left leftOld right rightOld clash
      · exact absurd (clash.trans (congrArg _ (List.mem_singleton.mp rightNew))) (unused leftOld)
    · rcases List.mem_append.mp rightMember with rightOld | rightNew
      · exact absurd (clash.symm.trans (congrArg _ (List.mem_singleton.mp leftNew)))
          (unused rightOld)
      · rw [List.mem_singleton.mp leftNew, List.mem_singleton.mp rightNew]
  · intro other member left here
    rw [notes.executions] at here
    rcases List.mem_append.mp member with old | new
    · exact lent.lenders other old left here
    · rw [List.mem_singleton.mp new, lender, found] at here
      rw [List.mem_singleton.mp new, ← Option.some.inj here]
      exact ⟨origin.symm, ended⟩
  · intro other place left here above member
    rw [notes.executions] at here
    obtain ⟨oneShot, received, below⟩ := lent.records other place left here above member
    exact ⟨oneShot, received, below.append _⟩
  · intro index hit here above member
    exact (lent.hits index hit here above member).append _
  · intro other entry member inner inside
    rcases notes.lends other entry member with old | ⟨rfl, _, earlier, old, loans⟩
    · obtain ⟨transfer, known, facts⟩ := lent.lends other entry old inner inside
      exact ⟨transfer, List.mem_append_left _ known, facts⟩
    · rw [loans] at inside
      rcases List.mem_append.mp inside with before_ | own
      · obtain ⟨transfer, known, facts⟩ := lent.lends other earlier old inner before_
        exact ⟨transfer, List.mem_append_left _ known, facts⟩
      · rw [List.mem_singleton.mp own]
        exact ⟨transfer, last, same, lender, kind⟩
  · intro other entry member inner inside left here
    rw [notes.executions] at here
    rcases notes.lends other entry member with old | ⟨rfl, _, earlier, old, loans⟩
    · exact lent.results other entry old inner inside left here
    · rw [loans] at inside
      rcases List.mem_append.mp inside with before_ | own
      · exact lent.results other earlier old inner before_ left here
      · rw [List.mem_singleton.mp own] at here ⊢
        rw [found] at here
        exact .inr (Option.some.inj here ▸ holds)
  · intro other queue queued inner member
    obtain ⟨entry, known, inside⟩ := lent.queued other queue queued inner member
    obtain ⟨later, there, keeps⟩ := notes.kept other entry known
    exact ⟨later, there, keeps inner inside⟩

omit [DecidableEq Key] in
/-- A lend that was settled gets no more loans. -/
theorem Revoked.notes {before after : ℕ → Registry Key Value} {loans : Name → LoanWord}
    {tasks : ℕ → Task} {loan : Loan} (revoked : Revoked before loans hits tasks)
    (notes : Notes home loan before after)
    : Revoked after loans hits tasks := by
  intro other entry member aborted inner inside released
  rw [notes.executions]
  rcases notes.lends other entry member with old | ⟨_, opened, _⟩
  · exact revoked other entry old aborted inner inside released
  · rw [opened] at aborted
    cases aborted

/-- A loan is noted, and the result given away with it. -/
theorem Linear.note (linear : Linear system) (mine : system.registries home = registry)
    (found : registry.executions.get? number = some record)
    (state : record.state = .ended .completed (some result))
    (shared : result.oneShot = true → record.claimState ≠ none)
    (lending : registry.lends[lend]? = some entry) (opened : entry.aborted = false)
    : Linear
        {
          system.setRegistry home (noted home registry lend number result) with
          transfers := system.transfers ++ [lentOf home registry number record result]
        } := by
  subst mine
  have accounted := linear.accounted home
  have tied := linear.tied.records home number record found
  have notes := notes_noted lending opened number result
  have holds : record.state.result? = some result := by
    rw [state]
    rfl
  have made := accounted.made found
  refine ⟨linear.accounting ⟨accounted.bytes, accounted.count, accounted.index, accounted.bindings,
      accounted.bindingsMade, accounted.results, accounted.recordsMade⟩,
    linear.tied.congr notes.executions notes.recordsMade, linear.exclusive,
    linear.placed.still (fun other => (notes.recordsMade other).ge)
      fun other place left here _ => ?_,
    linear.working,
    linear.lent.notes notes rfl rfl rfl rfl found holds ?_ made rfl rfl ?_ ⟨?_, ?_⟩,
    linear.revoked.notes notes, linear.forwarded.still fun other place left here _ => ?_⟩
  · exact ⟨left, notes.executions other ▸ here, rfl, rfl⟩
  · rw [state]
    rfl
  · exact fun oneShot imported => (tied.kind oneShot result imported holds).symm
  · intro oneShot
    change record.claimState = some record.origin ∧ system.words record.origin ≠ none
    obtain ⟨word, reservation⟩ := Option.ne_none_iff_exists'.mp (shared oneShot)
    obtain ⟨same, there⟩ := tied.reservation word reservation
    rw [← same]
    exact ⟨reservation, there⟩
  · exact fun reusable => tied.unshared result holds reusable
  · exact ⟨left, notes.executions other ▸ here, rfl⟩

omit [DecidableEq Key] in
theorem setRegistry_setRegistry (home : ℕ) (first second : Registry Key Value)
    : (system.setRegistry home first).setRegistry home second
      = system.setRegistry home second := by
  simp only [System.setRegistry, Function.update_idem]

/-- A loan is declared on its record, noted, and the result given away with it. -/
theorem Linear.declare (linear : Linear system) (mine : system.registries home = registry)
    (found : registry.executions.get? number = some record)
    (state : record.state = .ended .completed (some result))
    (shared : result.oneShot = true → record.claimState ≠ none)
    (lending : registry.lends[lend]? = some entry) (opened : entry.aborted = false)
    : Linear
        {
          system.setRegistry home (registry.declare home lend number record result) with
          transfers := system.transfers ++ [lentOf home registry number record result]
        } := by
  subst mine
  have declared := linear.setRecord found
    { record with
      declarations := record.declarations ++ [⟨home, (system.registries home).loansMade⟩] }
    ⟨rfl, rfl, rfl, rfl, rfl⟩ rfl rfl rfl
  have here : (system.setRegistry home ((system.registries home).setRecord number
      { record with
        declarations := record.declarations ++ [⟨home, (system.registries home).loansMade⟩] }
      )).registries home = (system.registries home).setRecord number
        { record with
          declarations := record.declarations ++ [⟨home, (system.registries home).loansMade⟩] } :=
    Function.update_self _ _ _
  have still : ((system.registries home).setRecord number
      { record with
        declarations := record.declarations ++ [⟨home, (system.registries home).loansMade⟩] }
      ).executions.get? number = some
        { record with
          declarations := record.declarations ++ [⟨home, (system.registries home).loansMade⟩] } := by
    rw [Registry.setRecord, OrderedMap.get?_set, if_pos rfl]
  have after := declared.note here still state shared lending opened
  rw [setRegistry_setRegistry] at after
  exact after

omit [DecidableEq Key] in
theorem declare_setRecord (registry : Registry Key Value) (lend : ℕ) (first second : Record Key)
    : (registry.setRecord number first).declare home lend number second result
      = registry.declare home lend number second result := by
  simp only [Registry.declare, Registry.setRecord, OrderedMap.set_set]

/-- What is offered of a record that has its reservation. -/
def offered (system : System Key Value) (home lend number : ℕ) (leased : Bool)
    (record : Record Key) (result : Result) (words : Name → Option ClaimWord)
    : System Key Value :=
  if leased then
    {
      system.setRegistry home
        ((system.registries home).declare home lend number record result) with
      words := words
      transfers := system.transfers ++ [lentOf home (system.registries home) number record result]
    }
  else { system.setRegistry home ((system.registries home).setRecord number record) with
    words := words }

omit [DecidableEq Key] in
/-- What `offer` does, when the record has a reservation to share and when it gets one. -/
theorem offerStep_spec {leased : Bool} {next : System Key Value}
    (taken : system.offerStep home lend number leased = some next)
    : ∃ record result entry,
        (system.registries home).executions.get? number = some record
        ∧ record.state = .ended .completed (some result)
        ∧ (system.registries home).lends[lend]? = some entry ∧ entry.aborted = false
        ∧ (result.oneShot = true ∧ record.claimState = none
            ∧ next = offered system home lend number leased
                { record with claimState := some ⟨home, number⟩ } result
                (withWord system.words ⟨home, number⟩)
          ∨ (result.oneShot = true → record.claimState ≠ none)
            ∧ next = offered system home lend number leased record result system.words) := by
  rw [System.offerStep] at taken
  simp only at taken
  split at taken
  · next record entry found lending =>
      split at taken
      · next result state =>
          split at taken
          · cases taken
          · next opened =>
              refine ⟨record, result, entry, found, state, lending,
                Bool.eq_false_iff.mpr opened, ?_⟩
              by_cases alone : result.oneShot = true ∧ record.claimState = none
              · have oneShot := alone.1
                have unshared := alone.2
                have shares : Registry.shared home number record result
                    = { record with claimState := some ⟨home, number⟩ } := by
                  rw [Registry.shared, if_pos oneShot, unshared]
                  rfl
                refine .inl ⟨oneShot, unshared, ?_⟩
                rw [shares, if_pos alone] at taken
                rw [offered]
                split at taken
                · next leased =>
                    rw [if_pos leased, ← Option.some.inj taken]
                    rfl
                · next declined =>
                    rw [if_neg declined, ← Option.some.inj taken]
                    rfl
              · have has (oneShot : result.oneShot = true) : record.claimState ≠ none :=
                  fun unshared => alone ⟨oneShot, unshared⟩
                have shares : Registry.shared home number record result = record := by
                  rw [Registry.shared]
                  split
                  · next oneShot =>
                      obtain ⟨word, reservation⟩ := Option.ne_none_iff_exists'.mp (has oneShot)
                      rw [reservation, Option.getD_some, ← reservation]
                  · rfl
                refine .inr ⟨has, ?_⟩
                rw [shares, if_neg alone] at taken
                rw [offered]
                split at taken
                · next leased =>
                    rw [if_pos leased, ← Option.some.inj taken]
                    rfl
                · next declined =>
                    rw [if_neg declined, ← Option.some.inj taken]
      · cases taken
  · cases taken

/-- A result is offered: its record gets a reservation to share, and the loan is declared. -/
theorem Linear.offer (linear : Linear system) {leased : Bool} {next : System Key Value}
    (taken : system.offerStep home lend number leased = some next)
    : Linear next := by
  obtain ⟨record, result, entry, found, state, lending, opened, parts⟩ := offerStep_spec taken
  rcases parts with ⟨oneShot, unshared, rfl⟩ | ⟨shared, rfl⟩
  · have reserved := linear.share found state oneShot unshared
    rw [offered]
    split
    · have still : ((system.registries home).setRecord number
          { record with claimState := some ⟨home, number⟩ }).executions.get? number
          = some { record with claimState := some ⟨home, number⟩ } := by
        rw [Registry.setRecord, OrderedMap.get?_set, if_pos rfl]
      have declared := reserved.declare (Function.update_self _ _ _) still state
        (fun _ => Option.some_ne_none _) lending opened
      rw [declare_setRecord] at declared
      simp only [System.setRegistry, Function.update_idem] at declared
      exact declared
    · exact reserved
  · rw [offered]
    split
    · exact linear.declare rfl found state shared lending opened
    · exact linear.setRecord found record (.refl record) rfl rfl rfl

end Offering

-- Lends are settled

section Ending

variable {words : Name → Option ClaimWord} {loans : Name → LoanWord} {hits : List Hit}
  {transfers : List (LentResult Key)} {tasks : ℕ → Task} {home lend : ℕ} {entry : Lend}

/-- One lend in one registry is over. -/
structure Ends (home : ℕ) (entry : Lend) (before after : ℕ → Registry Key Value) : Prop where
  executions : ∀ other, (after other).executions = (before other).executions
  recordsMade : ∀ other, (after other).recordsMade = (before other).recordsMade
  loansMade : ∀ other, (after other).loansMade = (before other).loansMade
  known : entry ∈ (before home).lends
  lends
    : ∀ other, ∀ later ∈ (after other).lends,
        later ∈ (before other).lends ∨ other = home ∧ later.loans = entry.loans
  kept
    : ∀ other, ∀ earlier ∈ (before other).lends,
        ∃ later ∈ (after other).lends, later.loans = earlier.loans

theorem ends_set {registries : ℕ → Registry Key Value}
    (lending : (registries home).lends[lend]? = some entry)
    : Ends home entry registries
        (Function.update registries home
          {
            registries home with
            lends := (registries home).lends.set lend { entry with aborted := true }
          }) := by
  obtain ⟨bound, at_⟩ := List.getElem?_eq_some_iff.mp lending
  refine ⟨fun other => ?_, fun other => ?_, fun other => ?_, List.mem_of_getElem? lending,
    fun other later member => ?_, fun other earlier member => ?_⟩
  · rw [Function.update_apply]
    split
    · next same => exact same ▸ rfl
    · rfl
  · rw [Function.update_apply]
    split
    · next same => exact same ▸ rfl
    · rfl
  · rw [Function.update_apply]
    split
    · next same => exact same ▸ rfl
    · rfl
  · rw [Function.update_apply] at member
    split at member
    · next same =>
        subst same
        rcases List.mem_or_eq_of_mem_set member with old | rfl
        · exact .inl old
        · exact .inr ⟨rfl, rfl⟩
    · exact .inl member
  · rw [Function.update_apply]
    split
    · next same =>
        subst same
        obtain ⟨place, inside, here⟩ := List.mem_iff_getElem.mp member
        by_cases mine : lend = place
        · subst mine
          refine ⟨{ entry with aborted := true }, List.mem_set bound _, ?_⟩
          rw [← here, at_]
        · refine ⟨earlier, List.mem_iff_getElem?.mpr ⟨place, ?_⟩, rfl⟩
          rw [List.getElem?_set_ne mine, List.getElem?_eq_getElem inside, here]
    · exact ⟨earlier, member, rfl⟩

theorem Lent.ends {before after : ℕ → Registry Key Value}
    (lent : Lent before words transfers hits tasks) (ends : Ends home entry before after)
    : Lent after words transfers hits tasks := by
  have older {other : ℕ} {later : Lend} (member : later ∈ (after other).lends)
      : ∃ earlier ∈ (before other).lends, later.loans = earlier.loans := by
    rcases ends.lends other later member with old | ⟨rfl, same⟩
    · exact ⟨later, old, rfl⟩
    · exact ⟨entry, ends.known, same⟩
  refine ⟨lent.shared, lent.claims, fun transfer member => ?_, lent.single,
    fun transfer member record found => ?_, fun other number record found => ?_, lent.hits,
    fun other later member loan inside => ?_, fun other later member loan inside record found => ?_,
    fun other queue queued loan member => ?_⟩
  · rw [ends.recordsMade, ends.loansMade]
    exact lent.made transfer member
  · exact lent.lenders transfer member record (ends.executions _ ▸ found)
  · exact lent.records other number record (ends.executions _ ▸ found)
  · obtain ⟨earlier, old, same⟩ := older member
    exact lent.lends other earlier old loan (same ▸ inside)
  · obtain ⟨earlier, old, same⟩ := older member
    exact lent.results other earlier old loan (same ▸ inside) record (ends.executions _ ▸ found)
  · obtain ⟨earlier, known, inside⟩ := lent.queued other queue queued loan member
    obtain ⟨later, there, same⟩ := ends.kept other earlier known
    exact ⟨later, there, same ▸ inside⟩

/-- The loans of the lend that is over are all still to be released. -/
theorem Revoked.ends {before after : ℕ → Registry Key Value}
    (revoked : Revoked before loans hits tasks) (ends : Ends home entry before after)
    (nothing : ∀ loan, ¬ (tasks home).isQueued loan)
    (refused
      : ∀ (index : ℕ) hit loan,
          hits[index]? = some hit → Refused tasks index hit loan
          → Refused (Function.update tasks home (.settlingLoans entry.loans)) index hit loan)
    : Revoked after loans hits (Function.update tasks home (.settlingLoans entry.loans)) := by
  intro other later member aborted loan inside released
  rcases ends.lends other later member with old | ⟨rfl, same⟩
  · obtain ⟨closed, shut⟩ := revoked other later old aborted loan inside
      fun waiting => released (queued_update nothing _ other loan waiting)
    refine ⟨closed, fun record found some_ index hit here oneShot below => ?_⟩
    exact refused index hit loan.claims here
      (shut record (ends.executions other ▸ found) some_ index hit here oneShot below)
  · refine absurd ?_ released
    rw [Function.update_self]
    exact same ▸ inside

variable [DecidableEq Key] {system : System Key Value}

/-- A lend is over, and its loans are to be released. -/
theorem Linear.settleLend (linear : Linear system) (idle : system.isIdle home = true)
    (lending : (system.registries home).lends[lend]? = some entry)
    : Linear ((system.setRegistry home
        {
          system.registries home with
          lends := (system.registries home).lends.set lend { entry with aborted := true }
        }).setTask home (.settlingLoans entry.loans)) := by
  obtain ⟨away, nothing⟩ := Task.hit?_of_idle idle
  have accounted := linear.accounted home
  have ends := ends_set lending
  refine ⟨linear.accounting ⟨accounted.bytes, accounted.count, accounted.index, accounted.bindings,
      accounted.bindingsMade, accounted.results, accounted.recordsMade⟩,
    linear.tied.congr ends.executions ends.recordsMade, linear.exclusive,
    linear.placed.still (fun other => (ends.recordsMade other).ge)
      fun other place left here _ => ?_,
    linear.working.release away rfl (fun _ => rfl) fun _ => rfl,
    (linear.lent.ends ends).setTask fun queue queued loan member => ?_,
    linear.revoked.ends ends nothing fun index hit loan here refused =>
      refused.elsewhere (by rw [away]; nofun),
    linear.forwarded.still fun other place left here _ => ?_⟩
  · exact ⟨left, ends.executions other ▸ here, rfl, rfl⟩
  · injection queued with same
    subst same
    obtain ⟨later, there, same⟩ := ends.kept home entry ends.known
    exact ⟨later, there, same ▸ member⟩
  · exact ⟨left, ends.executions other ▸ here, rfl⟩

end Ending

-- Loans are released

namespace Registry

section Releasing

variable [DecidableEq Key] {registry : Registry Key Value} {home : ℕ} {loan : Loan}
  {consumed : Bool}

/-- The release of a loan may take the result of its record, when something below it was. -/
structure Releases (home : ℕ) (loan : Loan) (consumed : Bool) (before after : Registry Key Value)
    : Prop extends Settles home before after where
  made : after.recordsMade = before.recordsMade
  states
    : ∀ place record,
        after.executions.get? place = some record
        → ∃ previous,
            before.executions.get? place = some previous
            ∧ (record.state = previous.state
              ∨ place = loan.record ∧ consumed = true ∧ loan.result.oneShot = true
                ∧ record.state.result? = none)
  released
    : consumed = true → loan.result.oneShot = true
      → ∀ record,
          after.executions.get? loan.record = some record
          → record.state.result? ≠ some loan.result

omit [DecidableEq Key] in
theorem Releases.sheds {before middle after : Registry Key Value}
    (releases : Releases home loan consumed before middle) (sheds : Sheds middle after)
    : Releases home loan consumed before after where
  toSettles := releases.toSettles.sheds sheds
  made := sheds.recordsMade.trans releases.made
  states place record found := releases.states place record (sheds.kept place record found)
  released used oneShot record found :=
    releases.released used oneShot record (sheds.kept _ record found)

theorem Accounted.releases_set (accounted : registry.Accounted none) {record : Record Key}
    (found : registry.executions.get? loan.record = some record) (after : Registry Key Value)
    (next : Record Key) (spends : Spends record next)
    (reservation : next.claimState = record.claimState)
    (state
      : next.state = record.state
        ∨ consumed = true ∧ loan.result.oneShot = true ∧ next.state.result? = none)
    (released
      : consumed = true → loan.result.oneShot = true → next.state.result? ≠ some loan.result)
    (changed : after.executions = registry.executions.set loan.record next)
    (made : after.recordsMade = registry.recordsMade)
    (loans : after.loansMade = registry.loansMade) (lends : after.lends = registry.lends)
    : Releases home loan consumed registry after where
  toSettles := accounted.settles_set found after next spends reservation changed made loans lends
  made := made
  states place left here := by
    rw [changed, OrderedMap.get?_set] at here
    split at here
    · next same =>
        rw [← Option.some.inj here]
        exact ⟨record, same ▸ found, state.imp_right fun facts => ⟨same, facts⟩⟩
    · exact ⟨left, here, .inl rfl⟩
  released used oneShot left here := by
    rw [changed, OrderedMap.get?_set, if_pos rfl] at here
    rw [← Option.some.inj here]
    exact released used oneShot

theorem releaseLoan_spec (accounted : registry.Accounted none) (home : ℕ) (loan : Loan)
    (consumed : Bool)
    : (registry.releaseLoan loan consumed).Accounted none
      ∧ Releases home loan consumed registry (registry.releaseLoan loan consumed) := by
  rw [Registry.releaseLoan]
  suffices released : ∀ released : Registry Key Value,
      released.Accounted none ∧ Releases home loan consumed registry released
      → released.trim.Accounted none ∧ Releases home loan consumed registry released.trim by
    refine released _ ?_
    cases found : registry.executions.get? loan.record with
    | none =>
        simp only [found]
        refine ⟨accounted, accounted.settles_refl, rfl,
          fun place left here => ⟨left, here, .inl rfl⟩, fun _ _ left here => ?_⟩
        rw [found] at here
        cases here
    | some record =>
        have undeclared : (registry.setRecord loan.record
            { record with declarations := record.declarations.erase loan.claims }).Accounted none :=
          accounted.setRecord found ⟨rfl, rfl, rfl, rfl⟩
        have still : (registry.setRecord loan.record
            { record with declarations := record.declarations.erase loan.claims }).executions.get?
            loan.record
            = some { record with declarations := record.declarations.erase loan.claims } := by
          rw [setRecord, OrderedMap.get?_set, if_pos rfl]
        simp only [still]
        split
        · next taken =>
            obtain ⟨used, oneShot, holds⟩ := taken
            obtain ⟨status, ended⟩ : ∃ status, record.state = .ended status (some loan.result) := by
              change record.state.result? = some loan.result at holds
              cases state : record.state with
              | running =>
                  rw [state] at holds
                  cases holds
              | ended status result =>
                  rw [state] at holds
                  exact ⟨status, congrArg _ holds⟩
            have parts : (registry.setRecord loan.record
                { record with declarations := record.declarations.erase loan.claims }
                ).releaseResult loan.record
                = {
                    registry with
                    closing := registry.closing ++ record.declarations.erase loan.claims
                    retainedBytes := registry.retainedBytes - loan.result.bytes
                    released := registry.released ++ [loan.result.number]
                    executions := registry.executions.set loan.record
                      { record with
                        declarations := record.declarations.erase loan.claims
                        state := .ended .retained none }
                  } := by
              rw [Registry.releaseResult, still]
              simp only [ended, setRecord, OrderedMap.set_set]
              rfl
            refine ⟨undeclared.releaseResult loan.record, ?_⟩
            rw [parts]
            exact accounted.releases_set found _
              { record with
                declarations := record.declarations.erase loan.claims
                state := .ended .retained none }
              (.ended ⟨rfl, rfl, rfl, rfl, rfl⟩ ended rfl (.inr rfl)) rfl
              (.inr ⟨used, oneShot, rfl⟩) (fun _ _ => (Option.some_ne_none _).symm) rfl rfl rfl rfl
        · next kept =>
            refine ⟨undeclared, accounted.releases_set found _
              { record with declarations := record.declarations.erase loan.claims }
              ⟨rfl, rfl, rfl, rfl, rfl, .inl rfl⟩ rfl (.inl rfl) (fun used oneShot holds => ?_)
              rfl rfl rfl rfl⟩
            exact kept ⟨used, oneShot, holds⟩
  rintro released ⟨counted, releases⟩
  exact ⟨counted.trim, releases.sheds (sheds_trim released)⟩

end Releasing

end Registry

section Releases

variable [DecidableEq Key] {system : System Key Value} {home index : ℕ} {entry : Lend}
  {loan : Loan} {hit : Hit} {registry : Registry Key Value}

/-- A claim below a loan is on a version of the lender's result, but not on the lender's record. -/
theorem Linear.below (linear : Linear system) (known : entry ∈ (system.registries home).lends)
    (inside : loan ∈ entry.loans) (here : system.hits[index]? = some hit)
    (below : loan.claims ∈ hit.receipts)
    : hit.result.oneShot = loan.result.oneShot
      ∧ (⟨home, loan.record⟩ : Name) ≠ ⟨hit.registry, hit.record⟩
      ∧ ∀ record,
          (system.registries home).executions.get? loan.record = some record
          → record.origin = hit.origin := by
  obtain ⟨transfer, member, same, origin, kind, apart⟩ :=
    linear.lent.hits index hit here loan.claims below
  obtain ⟨other, there, claims, lender, lent⟩ := linear.lent.lends home entry known loan inside
  obtain rfl := linear.lent.single transfer member other there (same.trans claims.symm)
  refine ⟨kind.symm.trans lent, lender ▸ apart, fun record found => ?_⟩
  have facts := linear.lent.lenders transfer member record
  rw [lender] at facts
  exact (facts found).1.trans origin

/-- The word of a loan is taken only while a claim below it holds the result, or has consumed it. -/
theorem Linear.taken (linear : Linear system) (known : entry ∈ (system.registries home).lends)
    (inside : loan ∈ entry.loans) (oneShot : loan.result.oneShot = true)
    (taken : (system.loans loan.claims).isTaken = true)
    : ∃ (index : ℕ) (hit : Hit),
        system.hits[index]? = some hit ∧ hit.isActive = true ∧ loan.claims ∈ hit.receipts := by
  rcases Bool.or_eq_true_iff.mp taken with consumed | counted
  · obtain ⟨index, hit, here, used, below⟩ := linear.working.consumers loan.claims consumed
    refine ⟨index, hit, here, ?_, below⟩
    rw [Hit.isActive, (linear.below known inside here below).1, oneShot, used, Bool.or_true]
    rfl
  · have some_ : (system.loans loan.claims).readers ≠ 0 := bne_iff_ne.mp counted
    rw [linear.working.readers, Ne, List.sum_eq_zero_iff] at some_
    push Not at some_
    obtain ⟨count, member, positive⟩ := some_
    obtain ⟨hit, there, rfl⟩ := List.mem_map.mp member
    obtain ⟨index, here⟩ := List.mem_iff_getElem?.mp there
    have held : loan.claims ∈ hit.held := List.count_pos_iff.mp (Nat.pos_of_ne_zero positive)
    have below := (linear.working.attended index hit here).within loan.claims held
    refine ⟨index, hit, here, ?_, below⟩
    have holding : hit.stage.isHolding = true := by
      by_contra left
      rw [(linear.exclusive.tied index hit here).empty (Bool.eq_false_iff.mpr left)] at held
      cases held
    rw [Hit.isActive, (linear.below known inside here below).1, oneShot, holding]
    rfl

/-- Below a loan whose word is not taken, no claim is granted and none has consumed. -/
theorem Linear.untaken (linear : Linear system) {claims : Name}
    (free : (system.loans claims).isTaken = false) (here : system.hits[index]? = some hit)
    (below : claims ∈ hit.receipts)
    : Refused system.tasks index hit claims := by
  obtain ⟨unused, uncounted⟩ := Bool.or_eq_false_iff.mp free
  have attended := linear.working.attended index hit here
  have unheld : claims ∉ hit.held := by
    intro held
    have none_ : (system.loans claims).readers = 0 := by simpa using uncounted
    rw [linear.working.readers, List.sum_eq_zero_iff] at none_
    have zero := none_ _ (List.mem_map_of_mem (List.mem_of_getElem? here))
    exact absurd zero (List.count_pos_iff.mpr held).ne'
  cases stage : hit.stage with
  | claiming =>
      obtain ⟨receipts, counting⟩ := attended.claims stage
      obtain ⟨_, _, split⟩ := attended.claiming receipts counting
      refine .inl ⟨stage, receipts, counting, ?_⟩
      rw [← split] at below
      exact (List.mem_append.mp below).resolve_left unheld
  | pending => exact absurd (attended.pending stage ▸ below) unheld
  | leaving consumed =>
      cases consumed with
      | false => exact .inr (.inl stage)
      | true =>
          obtain ⟨forward, marks, leaving⟩ := attended.leaves true stage
          obtain ⟨consumed, same, all, _, marked⟩ := attended.leaving forward marks leaving
          obtain rfl : true = consumed := Stage.leaving.inj (stage.symm.trans same)
          rcases marked rfl claims below with waiting | done
          · have held := (all (List.ne_nil_of_mem waiting)).2
            exact absurd (held ▸ below) unheld
          · rw [unused] at done
            cases done
  | letGo consumed =>
      cases consumed with
      | false => exact .inr (.inr (.inl stage))
      | true =>
          have done := attended.marked (by rw [stage]; rfl) (by rw [stage]; rfl) claims below
          rw [unused] at done
          cases done
  | settled consumed =>
      cases consumed with
      | false => exact .inr (.inr (.inr stage))
      | true =>
          have done := attended.marked (by rw [stage]; rfl) (by rw [stage]; rfl) claims below
          rw [unused] at done
          cases done

/-- While a loan is released, no unsettled claim is on the record that lent a taken result. -/
theorem Linear.lender_free (linear : Linear system) (known : entry ∈ (system.registries home).lends)
    (inside : loan ∈ entry.loans) (oneShot : loan.result.oneShot = true)
    (taken : (system.loans loan.claims).isTaken = true) (away : (system.tasks home).hit? = none)
    (here : system.hits[index]? = some hit) (registry : hit.registry = home)
    (place : hit.record = loan.record) (once : hit.result.oneShot = true) {record : Record Key}
    (found : (system.registries home).executions.get? loan.record = some record)
    : hit.stage.isSettled = true := by
  obtain ⟨other, taker, there, active, below⟩ := linear.taken known inside oneShot taken
  obtain ⟨_, apart, version⟩ := linear.below known inside there below
  have attended := linear.working.attended index hit here
  rw [registry] at attended
  have origin := (linear.placed.ended index hit record here
    (by rw [registry, place]; exact found)).2
  have alone (mine : hit.isActive = true) : False := by
    have same := linear.exclusive.alone other index taker hit there here active mine
      ((version record found).symm.trans origin)
    rw [same, here] at there
    obtain rfl := Option.some.inj there
    exact apart (by rw [registry, place])
  cases stage : hit.stage with
  | claiming =>
      obtain ⟨receipts, counting⟩ := attended.claims stage
      rw [counting] at away
      cases away
  | pending =>
      refine absurd ?_ alone
      rw [Hit.isActive, once, stage]
      rfl
  | leaving consumed =>
      obtain ⟨forward, marks, leaving⟩ := attended.leaves consumed stage
      rw [leaving] at away
      cases away
  | letGo consumed =>
      obtain ⟨forward, finishing⟩ := attended.finishes consumed stage
      rw [finishing] at away
      cases away
  | settled consumed => rfl

/-- A released record, when something below its loan took the result, is on no unsettled claim. -/
theorem Linear.placed_release (linear : Linear system)
    (known : entry ∈ (system.registries home).lends) (inside : loan ∈ entry.loans)
    (away : (system.tasks home).hit? = none)
    (releases
      : Registry.Releases home loan (system.loans loan.claims).isTaken (system.registries home)
          registry)
    : Placed (Function.update system.registries home registry) system.hits := by
  have settles := linear.settling releases.toSettles
  by_cases used : (system.loans loan.claims).isTaken = true ∧ loan.result.oneShot = true
  · refine linear.placed.leaves home loan.record settles
      (states_update fun place record found _ => ?_)
      fun index hit record here at_ place found once => ?_
    · obtain ⟨previous, there, state⟩ := releases.states place record found
      exact ⟨previous, there, state.imp_right And.left⟩
    rw [Function.update_self] at found
    obtain ⟨previous, there, _⟩ := releases.states loan.record record found
    refine ⟨linear.lender_free known inside used.2 used.1 away here at_ place once there,
      fun _ _ => ?_⟩
    obtain ⟨transfer, member, _, lender, _⟩ := linear.lent.lends home entry known loan inside
    have made := (linear.lent.made transfer member).1
    rw [lender] at made
    obtain ⟨older, was, spends⟩ := releases.old loan.record record found made
    rcases spends.result with same | gone
    · rcases linear.lent.results home entry known loan inside older was with none_ | holds
      · exact same.trans none_
      · exact absurd (same.trans holds) (releases.released used.1 used.2 record found)
    · exact gone
  · refine linear.placed.still (fun other => (settles other).recordsMade)
      fun other place record found below => ?_
    obtain ⟨previous, there, spends⟩ := (settles other).old place record found below
    refine ⟨previous, there, ?_, spends.origin⟩
    rw [Function.update_apply] at found
    split at found
    · next same =>
        subst same
        obtain ⟨older, was, state⟩ := releases.states place record found
        rw [Option.some.inj (there.symm.trans was)]
        exact state.resolve_right fun facts => used ⟨facts.2.1, facts.2.2.1⟩
    · rw [Option.some.inj (there.symm.trans found)]

/-- A loan that is released is revoked: what it lent was taken back, or no claim below it can have
it.
-/
theorem Linear.revoked_release (linear : Linear system) {rest : List Loan}
    (here : system.tasks home = .settlingLoans (loan :: rest))
    (known : entry ∈ (system.registries home).lends) (inside : loan ∈ entry.loans)
    {later : Name → LoanWord}
    (releases
      : Registry.Releases home loan (system.loans loan.claims).isTaken (system.registries home)
          registry)
    (shut : (later loan.claims).closed = true)
    (closed : ∀ other, (system.loans other).closed = true → (later other).closed = true)
    : Revoked (Function.update system.registries home registry) later system.hits
        (Function.update system.tasks home (.settlingLoans rest)) := by
  have settles := linear.settling releases.toSettles
  have kept := linear.revoked.settles linear.lent settles
  have away {index : ℕ} : (system.tasks home).hit? ≠ some index := by
    rw [here]
    nofun
  intro other later_ member aborted inner within released
  by_cases mine : other = home ∧ inner = loan
  · obtain ⟨rfl, rfl⟩ := mine
    refine ⟨shut, fun record found some_ index hit there oneShot below => ?_⟩
    have free : (system.loans inner.claims).isTaken = false := by
      by_contra taken
      have taken := Bool.not_eq_false _ |>.mp taken
      have kind := (linear.below known inside there below).1
      rw [oneShot] at kind
      rw [Function.update_self] at found
      obtain ⟨transfer, lent, _, lender, _⟩ := linear.lent.lends other entry known inner inside
      have made := (linear.lent.made transfer lent).1
      rw [lender] at made
      obtain ⟨previous, was, spends⟩ := releases.old inner.record record found made
      rcases spends.result with same | gone
      · rcases linear.lent.results other entry known inner inside previous was with none_ | holds
        · exact some_ (same.trans none_)
        · exact releases.released taken kind.symm record found (same.trans holds)
      · exact some_ gone
    exact (linear.untaken free there below).elsewhere away
  · obtain ⟨closed_, refused⟩ := kept other later_ member aborted inner within fun waiting => by
      by_cases same : other = home
      · subst same
        rw [here] at waiting
        rw [Function.update_self] at released
        exact released ((List.mem_cons.mp waiting).resolve_left fun head => mine ⟨rfl, head⟩)
      · rw [Function.update_of_ne same] at released
        exact released waiting
    refine ⟨closed _ closed_, fun record found some_ index hit there oneShot below => ?_⟩
    exact (refused record found some_ index hit there oneShot below).elsewhere away

/-- The next loan of a lend that is over is released. -/
theorem Linear.release (linear : Linear system) {rest : List Loan}
    (here : system.tasks home = .settlingLoans (loan :: rest))
    : Linear (((system.setLoan loan.claims
          { system.loans loan.claims with closed := true }).setRegistry home
            ((system.registries home).releaseLoan loan
              (system.loans loan.claims).isTaken)).setTask home (.settlingLoans rest)) := by
  obtain ⟨entry, known, inside⟩ := linear.lent.queued home _ here loan List.mem_cons_self
  obtain ⟨accounted, releases⟩ := Registry.releaseLoan_spec (linear.accounted home) home loan
    (system.loans loan.claims).isTaken
  have settles := linear.settling releases.toSettles
  have away : (system.tasks home).hit? = none := by
    rw [here]
    rfl
  have words (other : Name)
      : (Function.update system.loans loan.claims { system.loans loan.claims with closed := true }
            other).readers = (system.loans other).readers
          ∧ (Function.update system.loans loan.claims
            { system.loans loan.claims with closed := true } other).consumed
            = (system.loans other).consumed
          ∧ ((system.loans other).closed = true → (Function.update system.loans loan.claims
            { system.loans loan.claims with closed := true } other).closed = true) := by
    rw [Function.update_apply]
    split
    · next same =>
        rw [same]
        exact ⟨rfl, rfl, fun _ => rfl⟩
    · exact ⟨rfl, rfl, id⟩
  refine ⟨linear.accounting accounted, linear.tied.settles settles, linear.exclusive,
    linear.placed_release known inside away releases,
    linear.working.release away rfl (fun other => (words other).1) fun other => (words other).2.1,
    (linear.lent.settles settles).setTask fun queue queued other member => ?_,
    linear.revoked_release here known inside releases ?_ fun other => (words other).2.2,
    linear.forwarded.eases (fun other => (settles other).toEases) (linear.accounting accounted)
      (made_update releases.made)⟩
  · injection queued with same
    subst same
    rw [Function.update_self, releases.lends]
    exact linear.lent.queued home _ here other (List.mem_cons_of_mem _ member)
  · change (Function.update system.loans loan.claims _ loan.claims).closed = true
    rw [Function.update_self]

end Releases

end SpeculativeAction.ProcessHandoff
