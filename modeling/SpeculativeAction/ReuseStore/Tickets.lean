import SpeculativeAction.ReuseStore.Model

/-! Checkpoint tickets are linear: what every interleaving of issuing, publishing, claiming,
settling, collecting and clearing tells its callers about one ticket.
-/

namespace SpeculativeAction.ReuseStore

open SpeculativeAction.Library

/-- What a caller of the store learns about a ticket. -/
inductive TicketEvent where
  | issued (ticket : ℕ)
  | published (ticket : ℕ)
  | claimed (ticket claim : ℕ)
  /-- A live claim was settled without consuming the checkpoint. -/
  | released (ticket claim : ℕ)
  | consumed (ticket claim : ℕ)
deriving DecidableEq, Repr

def TicketEvent.ticket : TicketEvent → ℕ
  | .issued ticket | .published ticket => ticket
  | .claimed ticket _ | .released ticket _ | .consumed ticket _ => ticket

section Events

variable (contentSize : Digest → ℕ)

/-- The payload of a root can be loaded after its publisher wrote what it owns. -/
def payloadLoads (store : Store) (references : List ArtifactReference) (publisher : Publisher)
    : Bool :=
  let files := materialize contentSize store.files references publisher.owned publisher.now
  references.all (isPresent contentSize files)
    && withinBudget contentSize publisher.maxBytes references

/-- The ticket is issued and has no value. -/
def isPublishable (store : Store) (ticket : ℕ) : Bool :=
  (store.checkpoints.get? ticket).any fun row => row.value.isNone

/-- `putProcessCheckpoint` returns its record instead of throwing. -/
def publishes (store : Store) (ticket : ℕ) (record : StoredProcessCheckpoint)
    (publisher : Publisher)
    : Bool :=
  decodableProcessCheckpoint record && isPublishable store ticket
    && payloadLoads contentSize store record.certificate.references publisher

/-- What one step tells its caller about a ticket. -/
def ticketEvent (state : State) : Action → Option TicketEvent
  | .issueProcessCheckpoint =>
      if state.store.sequence + 1 ≤ 9007199254740991 then
        some (.issued (state.store.sequence + 1))
      else none
  | .putProcessCheckpoint ticket record publisher =>
      if publishes contentSize state.store ticket record publisher then some (.published ticket)
      else none
  | .claimProcessCheckpoint ticket certificate =>
      if claimable state.store ticket certificate then
        some (.claimed ticket state.claims.length)
      else none
  | .settleProcessCheckpoint claim consumed =>
      match state.claims[claim]? with
      | some ⟨ticket, false⟩ =>
          some (if consumed then .consumed ticket claim else .released ticket claim)
      | _ => none
  | _ => none

/-- One step with the events told so far. -/
def tellStep (told : List TicketEvent × State) (action : Action) : List TicketEvent × State :=
  (told.1 ++ (ticketEvent contentSize told.2 action).toList, step contentSize told.2 action)

/-- Everything a run told about tickets, in order. -/
def ticketEvents (actions : List Action) : List TicketEvent :=
  (runAll (tellStep contentSize) ([], {}) actions).1

theorem told_state (actions : List Action)
    : (runAll (tellStep contentSize) ([], {}) actions).2 = afterActions contentSize actions := by
  induction actions using List.reverseRecOn with
  | nil => rfl
  | append_singleton actions action ih =>
      rw [afterActions, runAll_snoc, runAll_snoc, tellStep, ih]
      rfl

end Events

/-- What may still be told after an earlier event: a ticket is issued once and published
once, and nothing is told about it after it was consumed.
-/
structure Follows (earlier later : TicketEvent) : Prop where
  issued : ∀ ticket, earlier = .issued ticket → later ≠ .issued ticket
  published : ∀ ticket, earlier = .published ticket → later ≠ .published ticket
  consumed : ∀ ticket claim, earlier = .consumed ticket claim → later.ticket ≠ ticket

/-- Tickets are linear in a history and the state it leads to. -/
structure TicketsLinear (events : List TicketEvent) (state : State) : Prop where
  follows : events.Pairwise Follows
  /-- At most one claim of a ticket is live. -/
  single
    : ∀ (left right ticket : ℕ),
        state.claims[left]? = some ⟨ticket, false⟩
        → state.claims[right]? = some ⟨ticket, false⟩
        → left = right
  /-- A live claim keeps its ticket from being claimed. -/
  unclaimable
    : ∀ (claim ticket : ℕ) (certificate : Record),
        state.claims[claim]? = some ⟨ticket, false⟩
        → claimable state.store ticket certificate = false
  /-- A consumed ticket can be neither claimed nor published. -/
  spent
    : ∀ (ticket claim : ℕ),
        .consumed ticket claim ∈ events
        → isPublishable state.store ticket = false
          ∧ ∀ certificate, claimable state.store ticket certificate = false

/-- How a history and its state belong together. -/
structure Accounted (events : List TicketEvent) (state : State) : Prop where
  follows : events.Pairwise Follows
  issued : ∀ event ∈ events, event.ticket ≤ state.store.sequence
  rows
    : ∀ (ticket : ℕ) (row : CheckpointRow),
        state.store.checkpoints.get? ticket = some row → ticket ≤ state.store.sequence
  published
    : ∀ (ticket : ℕ),
        .published ticket ∈ events → isPublishable state.store ticket = false
  /-- The row of a live claim is held by it, when it is still there. -/
  held
    : ∀ (claim ticket : ℕ) (row : CheckpointRow),
        state.claims[claim]? = some ⟨ticket, false⟩
        → state.store.checkpoints.get? ticket = some row
        → row.claim = some claim
  single
    : ∀ (left right ticket : ℕ),
        state.claims[left]? = some ⟨ticket, false⟩
        → state.claims[right]? = some ⟨ticket, false⟩
        → left = right
  /-- A live claim was granted for an issued ticket. -/
  claims
    : ∀ (claim ticket : ℕ),
        state.claims[claim]? = some ⟨ticket, false⟩ → ticket ≤ state.store.sequence
  /-- A consumed ticket has neither a row nor a live claim. -/
  consumed
    : ∀ (ticket claim : ℕ),
        .consumed ticket claim ∈ events
        → state.store.checkpoints.get? ticket = none
          ∧ ∀ other : ℕ, state.claims[other]? ≠ some ⟨ticket, false⟩

theorem accounted_initial : Accounted [] {} where
  follows := .nil
  issued _ told := by cases told
  rows _ _ found := by cases found
  published _ told := by cases told
  held _ _ _ live := by cases live
  single _ _ _ live := by cases live
  claims _ _ live := by cases live
  consumed _ _ told := by cases told

theorem Accounted.linear {events : List TicketEvent} {state : State}
    (accounted : Accounted events state)
    : TicketsLinear events state where
  follows := accounted.follows
  single := accounted.single
  unclaimable claim ticket certificate live := by
    unfold claimable
    split
    · rename_i record found
      cases accounted.held claim ticket _ live found
    · rfl
  spent ticket claim told := by
    have gone := (accounted.consumed ticket claim told).1
    exact ⟨by rw [isPublishable, gone]; rfl, fun certificate => by rw [claimable, gone]⟩

section Steps

variable {events : List TicketEvent} {state after : State}
  {ticket : ℕ} {store : Store} {certificate : Record}

/-- A step that tells nothing and at most drops rows keeps the account. -/
theorem Accounted.drop (accounted : Accounted events state) (claims : after.claims = state.claims)
    (sequence : after.store.sequence = state.store.sequence)
    (rows
      : ∀ ticket row,
          after.store.checkpoints.get? ticket = some row
          → state.store.checkpoints.get? ticket = some row)
    : Accounted events after where
  follows := accounted.follows
  issued := by rw [sequence]; exact accounted.issued
  rows ticket row found := by
    rw [sequence]
    exact accounted.rows ticket row (rows ticket row found)
  published ticket told := by
    have before := accounted.published ticket told
    unfold isPublishable at before ⊢
    cases found : after.store.checkpoints.get? ticket with
    | none => rfl
    | some row => rwa [rows ticket row found] at before
  held claim ticket row live found := by
    rw [claims] at live
    exact accounted.held claim ticket row live (rows ticket row found)
  single := by rw [claims]; exact accounted.single
  claims := by rw [claims, sequence]; exact accounted.claims
  consumed ticket claim told := by
    rw [claims]
    obtain ⟨gone, unclaimed⟩ := accounted.consumed ticket claim told
    refine ⟨?_, unclaimed⟩
    cases found : after.store.checkpoints.get? ticket with
    | none => rfl
    | some row => cases gone.symm.trans (rows ticket row found)

/-- An event about a ticket that was not consumed may follow when it repeats nothing. -/
theorem Accounted.tell (accounted : Accounted events state) {event : TicketEvent}
    (fresh : ∀ ticket, event = .issued ticket → .issued ticket ∉ events)
    (unpublished : ∀ ticket, event = .published ticket → .published ticket ∉ events)
    (unconsumed : ∀ claim, .consumed event.ticket claim ∉ events)
    : (events ++ [event]).Pairwise Follows := by
  refine List.pairwise_append.mpr ⟨accounted.follows, List.pairwise_singleton _ _, ?_⟩
  intro earlier told later last
  obtain rfl := List.mem_singleton.mp last
  constructor
  · intro ticket issuance same
    exact fresh ticket same (issuance ▸ told)
  · intro ticket publication same
    exact unpublished ticket same (publication ▸ told)
  · intro ticket claim consumption same
    exact unconsumed claim (same ▸ consumption ▸ told)

/-- A step that leaves the rows alone and tells nothing keeps the account. -/
theorem Accounted.same (accounted : Accounted events state) (claims : after.claims = state.claims)
    (sequence : after.store.sequence = state.store.sequence)
    (checkpoints : after.store.checkpoints = state.store.checkpoints)
    : Accounted events after :=
  accounted.drop claims sequence fun _ _ found => checkpoints ▸ found

/-- Issuing tells a ticket beyond every ticket told of so far. -/
theorem Accounted.issue (accounted : Accounted events state)
    (room : state.store.sequence + 1 ≤ 9007199254740991)
    : Accounted (events ++ [.issued (state.store.sequence + 1)])
        { state with store := issueProcessCheckpoint state.store } := by
  have sequence
      : (issueProcessCheckpoint state.store).sequence = state.store.sequence + 1 := by
    rw [issueProcessCheckpoint, if_pos room]
    rfl
  have found (ticket : ℕ)
      : (issueProcessCheckpoint state.store).checkpoints.get? ticket
        = if ticket = state.store.sequence + 1 then some {}
          else state.store.checkpoints.get? ticket := by
    rw [issueProcessCheckpoint, if_pos room]
    exact OrderedMap.get?_set _ _ _ _
  have beyond (event : TicketEvent) (told : event ∈ events)
      : event.ticket ≠ state.store.sequence + 1 := by
    have := accounted.issued event told
    omega
  constructor
  case follows =>
    apply accounted.tell
    · intro ticket issuance told
      exact beyond _ told (TicketEvent.issued.inj issuance).symm
    · intro ticket publication
      cases publication
    · intro claim told
      exact beyond _ told rfl
  case issued =>
    intro event told
    dsimp only
    rw [sequence]
    rcases List.mem_append.mp told with before | last
    · exact Nat.le_succ_of_le (accounted.issued event before)
    · rw [List.mem_singleton.mp last]
      exact Nat.le_refl _
  case rows =>
    intro ticket row present
    dsimp only at present ⊢
    rw [found] at present
    rw [sequence]
    split at present
    · rename_i same
      exact Nat.le_of_eq same
    · exact Nat.le_succ_of_le (accounted.rows ticket row present)
  case published =>
    intro ticket told
    have before : TicketEvent.published ticket ∈ events := by simpa using told
    have other : ticket ≠ state.store.sequence + 1 := beyond _ before
    dsimp only
    rw [isPublishable, found, if_neg other]
    exact accounted.published ticket before
  case held =>
    intro claim ticket row live present
    have issued := accounted.claims claim ticket live
    dsimp only at present
    rw [found, if_neg (by omega)] at present
    exact accounted.held claim ticket row live present
  case single => exact accounted.single
  case claims =>
    intro claim ticket live
    dsimp only
    rw [sequence]
    exact Nat.le_succ_of_le (accounted.claims claim ticket live)
  case consumed =>
    intro ticket claim told
    have before : TicketEvent.consumed ticket claim ∈ events := by simpa using told
    obtain ⟨gone, unclaimed⟩ := accounted.consumed ticket claim before
    have other : ticket ≠ state.store.sequence + 1 := beyond _ before
    refine ⟨?_, unclaimed⟩
    dsimp only
    rw [found, if_neg other]
    exact gone

section Publication

variable (contentSize : Digest → ℕ) {record : StoredProcessCheckpoint}

/-- A publication that is not told leaves the rows alone. -/
theorem putProcessCheckpoint_refused {publisher : Publisher}
    (refused : publishes contentSize store ticket record publisher = false)
    : (putProcessCheckpoint contentSize store ticket record publisher).checkpoints
        = store.checkpoints := by
  unfold putProcessCheckpoint publishRoot
  split
  · rename_i decodable
    split
    · rfl
    · rename_i written publication
      dsimp only at publication
      split at publication
      · rename_i claim found
        dsimp only
        split
        · rename_i loads
          have publishable : isPublishable store ticket = true := by
            rw [isPublishable, found]
            rfl
          rw [publishes, decodable, publishable, payloadLoads, loads] at refused
          cases refused
        · rfl
      · cases publication
  · rfl

/-- A publication that is told gives an issued row its value. -/
theorem putProcessCheckpoint_published {publisher : Publisher}
    (published : publishes contentSize store ticket record publisher = true)
    : ∃ row,
        store.checkpoints.get? ticket = some row
        ∧ row.value = none
        ∧ (putProcessCheckpoint contentSize store ticket record publisher).checkpoints
          = store.checkpoints.set ticket { row with value := some record } := by
  simp only [publishes, Bool.and_eq_true, payloadLoads] at published
  obtain ⟨⟨decodable, publishable⟩, loads⟩ := published
  unfold isPublishable at publishable
  cases found : store.checkpoints.get? ticket with
  | none => rw [found] at publishable; cases publishable
  | some row =>
      obtain ⟨value, claim⟩ := row
      cases value with
      | some value => rw [found] at publishable; cases publishable
      | none =>
          refine ⟨⟨none, claim⟩, rfl, rfl, ?_⟩
          unfold putProcessCheckpoint publishRoot
          rw [if_pos decodable]
          dsimp only
          rw [found]
          dsimp only
          rw [if_pos (Bool.and_eq_true_iff.mpr loads)]
          rfl

/-- Publishing never issues. -/
theorem publishRoot_sequence (store : Store) (key : RootKey) (references : List ArtifactReference)
    (publisher : Publisher) {publish : Store → Option Store}
    (kept : ∀ written, publish store = some written → written.sequence = store.sequence)
    : (publishRoot contentSize store key references publisher publish).sequence
      = store.sequence := by
  unfold publishRoot
  cases publication : publish store with
  | none => rfl
  | some written =>
      dsimp only
      split
      · exact kept written publication
      · rfl

theorem putProcessCheckpoint_sequence (store : Store) (ticket : ℕ)
    (record : StoredProcessCheckpoint) (publisher : Publisher)
    : (putProcessCheckpoint contentSize store ticket record publisher).sequence
      = store.sequence := by
  unfold putProcessCheckpoint
  split
  · apply publishRoot_sequence
    intro written publication
    split at publication
    · obtain rfl := Option.some.inj publication
      rfl
    · cases publication
  · rfl

end Publication

/-- Publishing tells a ticket that was issued and has no value. -/
theorem Accounted.put (contentSize : Digest → ℕ) (accounted : Accounted events state)
    {record : StoredProcessCheckpoint} {publisher : Publisher}
    (published : publishes contentSize state.store ticket record publisher = true)
    : Accounted (events ++ [.published ticket])
        {
          state with
          store := putProcessCheckpoint contentSize state.store ticket record publisher
        } := by
  obtain ⟨row, present, unset, checkpoints⟩ :=
    putProcessCheckpoint_published contentSize published
  have sequence := putProcessCheckpoint_sequence contentSize state.store ticket record publisher
  have unpublished : .published ticket ∉ events := by
    intro told
    have := accounted.published ticket told
    rw [isPublishable, present, Option.any_some, unset] at this
    cases this
  have unconsumed (claim : ℕ) : .consumed ticket claim ∉ events := by
    intro told
    cases present.symm.trans (accounted.consumed ticket claim told).1
  have found (other : ℕ)
      : (putProcessCheckpoint contentSize state.store ticket record publisher).checkpoints.get?
          other
        = if other = ticket then some { row with value := some record }
          else state.store.checkpoints.get? other := by
    rw [checkpoints]
    exact OrderedMap.get?_set _ _ _ _
  constructor
  case follows =>
    apply accounted.tell
    · intro other issuance
      cases issuance
    · intro other publication
      exact TicketEvent.published.inj publication ▸ unpublished
    · exact unconsumed
  case issued =>
    intro event told
    dsimp only
    rw [sequence]
    rcases List.mem_append.mp told with before | last
    · exact accounted.issued event before
    · rw [List.mem_singleton.mp last]
      exact accounted.rows ticket row present
  case rows =>
    intro other written present'
    dsimp only at present' ⊢
    rw [sequence]
    rw [found] at present'
    split at present'
    · rename_i same
      exact same ▸ accounted.rows ticket row present
    · exact accounted.rows other written present'
  case published =>
    intro other told
    dsimp only
    rw [isPublishable, found]
    split
    · rfl
    · rename_i different
      apply accounted.published other
      simpa [different] using told
  case held =>
    intro claim other written live present'
    dsimp only at present'
    rw [found] at present'
    split at present'
    · rename_i same
      obtain rfl := Option.some.inj present'
      exact accounted.held claim ticket row (same ▸ live) present
    · exact accounted.held claim other written live present'
  case single => exact accounted.single
  case claims =>
    dsimp only
    rw [sequence]
    exact accounted.claims
  case consumed =>
    intro other claim told
    have before : TicketEvent.consumed other claim ∈ events := by simpa using told
    obtain ⟨gone, unclaimed⟩ := accounted.consumed other claim before
    have different : other ≠ ticket := fun same => unconsumed claim (same ▸ before)
    refine ⟨?_, unclaimed⟩
    dsimp only
    rw [found, if_neg different]
    exact gone

/-- Nobody holds a claimable row. -/
theorem claimable_row (granted : claimable store ticket certificate = true)
    : ∃ row, store.checkpoints.get? ticket = some row ∧ row.claim = none := by
  unfold claimable at granted
  split at granted
  · rename_i record found
    exact ⟨_, found, rfl⟩
  · cases granted

theorem setClaim_sequence (store : Store) (ticket : ℕ) (claim : Option ℕ)
    : (setClaim store ticket claim).sequence = store.sequence := by
  unfold setClaim
  split <;> rfl

theorem get?_setClaim {row : CheckpointRow} (found : store.checkpoints.get? ticket = some row)
    (claim : Option ℕ) (other : ℕ)
    : (setClaim store ticket claim).checkpoints.get? other
      = if other = ticket then some { row with claim } else store.checkpoints.get? other := by
  rw [setClaim, found]
  exact OrderedMap.get?_set _ _ _ _

/-- A claim that is not granted changes no row. -/
theorem Accounted.refuse (accounted : Accounted events state)
    (refused : claimable state.store ticket certificate = false) (claim : ℕ)
    : Accounted events
        {
          state with
          store := claimProcessCheckpoint state.store ticket certificate claim
        } := by
  refine accounted.same ?_ ?_ ?_
  · rfl
  · simp [claimProcessCheckpoint, refused, Store.commitObjects, Store.commit]
  · simp [claimProcessCheckpoint, refused, Store.commitObjects, Store.commit]

/-- The claims after a new one. -/
theorem getElem?_grant {claims : List Claim} {claim other : ℕ}
    (live : (claims ++ [({ ticket } : Claim)])[claim]? = some ⟨other, false⟩)
    : claims[claim]? = some ⟨other, false⟩ ∨ claim = claims.length ∧ other = ticket := by
  rcases Nat.lt_trichotomy claim claims.length with before | last | beyond
  · rw [List.getElem?_append_left before] at live
    exact .inl live
  · rw [last, List.getElem?_concat_length] at live
    injection live with same
    injection same with same
    exact .inr ⟨last, same.symm⟩
  · rw [List.getElem?_eq_none (by simp; omega)] at live
    cases live

/-- A granted claim finds a row that nobody holds, so its ticket has no live claim. -/
theorem Accounted.grant (accounted : Accounted events state)
    (granted : claimable state.store ticket certificate = true)
    : Accounted (events ++ [.claimed ticket state.claims.length])
        {
          state with
          store := claimProcessCheckpoint state.store ticket certificate state.claims.length
          claims := state.claims ++ [{ ticket }]
        } := by
  obtain ⟨row, present, unheld⟩ := claimable_row granted
  have sequence
      : (claimProcessCheckpoint state.store ticket certificate state.claims.length).sequence
        = state.store.sequence := by
    rw [claimProcessCheckpoint, if_pos granted]
    exact setClaim_sequence _ _ _
  have found (other : ℕ)
      : (claimProcessCheckpoint state.store ticket certificate
            state.claims.length).checkpoints.get? other
        = if other = ticket then some { row with claim := some state.claims.length }
          else state.store.checkpoints.get? other := by
    rw [claimProcessCheckpoint, if_pos granted]
    exact get?_setClaim present _ _
  have unclaimed (claim : ℕ) : state.claims[claim]? ≠ some ⟨ticket, false⟩ := by
    intro live
    cases unheld.symm.trans (accounted.held claim ticket row live present)
  have unconsumed (claim : ℕ) : .consumed ticket claim ∉ events := by
    intro told
    cases present.symm.trans (accounted.consumed ticket claim told).1
  constructor
  case follows =>
    apply accounted.tell
    · intro other issuance
      cases issuance
    · intro other publication
      cases publication
    · exact unconsumed
  case issued =>
    intro event told
    dsimp only
    rw [sequence]
    rcases List.mem_append.mp told with before | last
    · exact accounted.issued event before
    · rw [List.mem_singleton.mp last]
      exact accounted.rows ticket row present
  case rows =>
    intro other held present'
    dsimp only at present' ⊢
    rw [sequence]
    rw [found] at present'
    split at present'
    · rename_i same
      exact same ▸ accounted.rows ticket row present
    · exact accounted.rows other held present'
  case published =>
    intro other told
    have before : TicketEvent.published other ∈ events := by simpa using told
    have unpublishable := accounted.published other before
    dsimp only
    rw [isPublishable, found]
    split
    · rename_i same
      rw [isPublishable, same, present] at unpublishable
      exact unpublishable
    · exact unpublishable
  case held =>
    intro claim other held live present'
    dsimp only at present'
    rw [found] at present'
    rcases getElem?_grant live with before | ⟨last, same⟩
    · have different : other ≠ ticket := fun same => unclaimed claim (same ▸ before)
      rw [if_neg different] at present'
      exact accounted.held claim other held before present'
    · rw [if_pos same] at present'
      obtain rfl := Option.some.inj present'
      rw [last]
  case single =>
    intro left right other first second
    rcases getElem?_grant first with before | ⟨last, same⟩
    · rcases getElem?_grant second with before' | ⟨last', same'⟩
      · exact accounted.single left right other before before'
      · exact absurd (same' ▸ before) (unclaimed left)
    · rcases getElem?_grant second with before' | ⟨last', same'⟩
      · exact absurd (same ▸ before') (unclaimed right)
      · rw [last, last']
  case claims =>
    intro claim other live
    dsimp only
    rw [sequence]
    rcases getElem?_grant live with before | ⟨last, same⟩
    · exact accounted.claims claim other before
    · exact same ▸ accounted.rows ticket row present
  case consumed =>
    intro other claim told
    have before : TicketEvent.consumed other claim ∈ events := by simpa using told
    obtain ⟨gone, unlived⟩ := accounted.consumed other claim before
    have different : other ≠ ticket := fun same => unconsumed claim (same ▸ before)
    constructor
    · dsimp only
      rw [found, if_neg different]
      exact gone
    · intro holder live
      rcases getElem?_grant live with earlier | ⟨_, same⟩
      · exact unlived holder earlier
      · exact different same

/-- The rows after settling a claim that holds its row, when the row is still there. -/
theorem get?_settle {claim : ℕ} (consumed : Bool)
    (held : ∀ row, store.checkpoints.get? ticket = some row → row.claim = some claim) (other : ℕ)
    : (settleProcessCheckpoint store ticket claim consumed).checkpoints.get? other
      = if other = ticket then
          if consumed then none
          else (store.checkpoints.get? ticket).map fun row => { row with claim := none }
        else store.checkpoints.get? other := by
  cases found : store.checkpoints.get? ticket with
  | none =>
      have lost : heldBy store ticket claim = false := by rw [heldBy, found]; rfl
      have unchanged
          : (settleProcessCheckpoint store ticket claim consumed).checkpoints
            = store.checkpoints := by
        simp [settleProcessCheckpoint, lost, Store.commitObjects, Store.commit]
      rw [unchanged]
      by_cases same : other = ticket
      · simp [same, found]
      · rw [if_neg same]
  | some row =>
      have holding : heldBy store ticket claim = true := by
        rw [heldBy, found, Option.any_some, held row found]
        exact beq_self_eq_true _
      rw [settleProcessCheckpoint, if_pos holding]
      cases consumed with
      | true => exact OrderedMap.get?_delete _ _ _
      | false => exact get?_setClaim found _ _

theorem settle_sequence (store : Store) (ticket claim : ℕ) (consumed : Bool)
    : (settleProcessCheckpoint store ticket claim consumed).sequence = store.sequence := by
  unfold settleProcessCheckpoint
  cases heldBy store ticket claim with
  | false => rfl
  | true =>
      cases consumed with
      | true => rfl
      | false => exact setClaim_sequence _ _ _

/-- The claims that are live after one was settled. -/
theorem getElem?_settled {claims : List Claim} {claim other settled : ℕ}
    (live : (claims.set claim ⟨settled, true⟩)[other]? = some ⟨ticket, false⟩)
    : other ≠ claim ∧ claims[other]? = some ⟨ticket, false⟩ := by
  rw [List.getElem?_set] at live
  split at live
  · split at live
    · cases live
    · cases live
  · rename_i different
    exact ⟨fun same => different same.symm, live⟩

/-- Settling a live claim gives its row back or removes it. -/
theorem Accounted.settle (accounted : Accounted events state) {claim : ℕ} (consumed : Bool)
    (current : state.claims[claim]? = some ⟨ticket, false⟩)
    : Accounted
        (events ++ [if consumed then .consumed ticket claim else .released ticket claim])
        {
          state with
          store := settleProcessCheckpoint state.store ticket claim consumed
          claims := state.claims.set claim ⟨ticket, true⟩
        } := by
  have sequence := settle_sequence state.store ticket claim consumed
  have found := get?_settle consumed (accounted.held claim ticket · current)
  have about (told : TicketEvent)
      (last
        : told = if consumed then .consumed ticket claim else TicketEvent.released ticket claim)
      : told.ticket = ticket := by
    cases consumed <;> exact last ▸ rfl
  have unconsumed (other : ℕ) : .consumed ticket other ∉ events := by
    intro told
    exact (accounted.consumed ticket other told).2 claim current
  constructor
  case follows =>
    apply accounted.tell
    · intro other issuance
      cases consumed <;> cases issuance
    · intro other publication
      cases consumed <;> cases publication
    · intro other
      rw [about _ rfl]
      exact unconsumed other
  case issued =>
    intro event told
    dsimp only
    rw [sequence]
    rcases List.mem_append.mp told with before | last
    · exact accounted.issued event before
    · rw [about event (List.mem_singleton.mp last)]
      exact accounted.claims claim ticket current
  case rows =>
    intro other row present
    dsimp only at present ⊢
    rw [sequence]
    rw [found] at present
    split at present
    · rename_i same
      exact same ▸ accounted.claims claim ticket current
    · exact accounted.rows other row present
  case published =>
    intro other told
    have before : TicketEvent.published other ∈ events := by
      cases consumed <;> simpa using told
    have unpublishable := accounted.published other before
    dsimp only
    rw [isPublishable, found]
    split
    · rename_i same
      split
      · rfl
      · rw [isPublishable, same] at unpublishable
        rw [Option.any_map]
        exact unpublishable
    · exact unpublishable
  case held =>
    intro holder other row live present
    obtain ⟨different, before⟩ := getElem?_settled live
    dsimp only at present
    rw [found] at present
    split at present
    · rename_i same
      exact absurd (accounted.single holder claim ticket (same ▸ before) current) different
    · exact accounted.held holder other row before present
  case single =>
    intro left right other first second
    exact accounted.single left right other (getElem?_settled first).2
      (getElem?_settled second).2
  case claims =>
    intro holder other live
    dsimp only
    rw [sequence]
    exact accounted.claims holder other (getElem?_settled live).2
  case consumed =>
    intro other holder told
    rcases List.mem_append.mp told with before | last
    · obtain ⟨gone, unclaimed⟩ := accounted.consumed other holder before
      have different : other ≠ ticket := fun same => unconsumed holder (same ▸ before)
      refine ⟨?_, fun another live => unclaimed another (getElem?_settled live).2⟩
      dsimp only
      rw [found, if_neg different]
      exact gone
    · have same : other = ticket := about _ (List.mem_singleton.mp last)
      cases consumed with
      | false => cases List.mem_singleton.mp last
      | true =>
          constructor
          · dsimp only
            rw [found, if_pos same, if_pos rfl]
          · intro another live
            obtain ⟨different, before⟩ := getElem?_settled live
            exact different (accounted.single another claim ticket (same ▸ before) current)

end Steps

section Runs

variable (contentSize : Digest → ℕ)

theorem publishRoot_checkpoints (store : Store) (key : RootKey)
    (references : List ArtifactReference) (publisher : Publisher) {publish : Store → Option Store}
    (kept
      : ∀ written, publish store = some written → written.checkpoints = store.checkpoints)
    : (publishRoot contentSize store key references publisher publish).checkpoints
      = store.checkpoints := by
  unfold publishRoot
  cases publication : publish store with
  | none => rfl
  | some written =>
      dsimp only
      split
      · exact kept written publication
      · rfl

/-- What a transaction does to tickets when it is not one of theirs: it drops some rows. -/
structure DropsRows (before after : Store) : Prop where
  sequence : after.sequence = before.sequence
  rows
    : ∀ (ticket : ℕ) (row : CheckpointRow),
        after.checkpoints.get? ticket = some row → before.checkpoints.get? ticket = some row

theorem DropsRows.same {before after : Store} (sequence : after.sequence = before.sequence)
    (checkpoints : after.checkpoints = before.checkpoints)
    : DropsRows before after :=
  ⟨sequence, fun _ _ found => checkpoints ▸ found⟩

theorem putCertificate_dropsRows (store : Store) (certificate : Record) (publisher : Publisher)
    : DropsRows store (putCertificate contentSize store certificate publisher) := by
  unfold putCertificate
  split
  · exact .same rfl rfl
  · apply DropsRows.same
    · apply publishRoot_sequence
      intro written publication
      obtain rfl := Option.some.inj publication
      split <;> rfl
    · apply publishRoot_checkpoints
      intro written publication
      obtain rfl := Option.some.inj publication
      split <;> rfl

theorem putInputVersion_dropsRows (store : Store) (record : Record) (publisher : Publisher)
    : DropsRows store (putInputVersion contentSize store record publisher) := by
  unfold putInputVersion
  split
  · apply DropsRows.same
    · apply publishRoot_sequence
      intro written publication
      obtain rfl := Option.some.inj publication
      rfl
    · apply publishRoot_checkpoints
      intro written publication
      obtain rfl := Option.some.inj publication
      rfl
  · exact .same rfl rfl

theorem deleteRow_dropsRows (store : Store) (key : RootKey)
    : DropsRows store (deleteRow store key) := by
  cases key with
  | certificate record => exact .same rfl rfl
  | input record => exact .same rfl rfl
  | checkpoint removed =>
      refine ⟨rfl, ?_⟩
      intro ticket row found
      dsimp only [deleteRow] at found
      rw [OrderedMap.get?_delete] at found
      split at found
      · cases found
      · exact found

theorem collectObject_dropsRows (store : Store) (revision : ℕ) (cutoff : ℚ) (file : StoredFile)
    (result : ProvenanceStoreGCResult)
    : DropsRows store (collectObject contentSize store revision cutoff file result).1 := by
  unfold collectObject
  split
  · exact .same rfl rfl
  · split
    · split
      · split
        · exact .same rfl rfl
        · exact .same rfl rfl
      · exact .same rfl rfl
    · rename_i key _
      have dropped := deleteRow_dropsRows store key
      exact ⟨dropped.sequence, dropped.rows⟩

theorem next_dropsRows (store : Store) (collector : Collector)
    : DropsRows store (collector.next contentSize store).1 := by
  unfold Collector.next
  split
  · exact collectObject_dropsRows contentSize _ _ _ _ _
  · exact collectObject_dropsRows contentSize _ _ _ _ _
  · exact .same rfl rfl

variable {contentSize} {events : List TicketEvent} {state : State}

/-- A step of a collector keeps the account. -/
theorem Accounted.collect (accounted : Accounted events state) (collector : ℕ)
    {act : Collector → Store × Collector}
    (dropped : ∀ current, DropsRows state.store (act current).1)
    : Accounted events (state.collect collector act) := by
  unfold State.collect
  split
  · rename_i current _
    exact accounted.drop rfl (dropped current).sequence (dropped current).rows
  · exact accounted

/-- Every step keeps the account of what was told. -/
theorem Accounted.step (accounted : Accounted events state) (action : Action)
    : Accounted (events ++ (ticketEvent contentSize state action).toList)
        (step contentSize state action) := by
  have silent (after : State) (kept : Accounted events after)
      : Accounted (events ++ (none : Option TicketEvent).toList) after := by
    rwa [Option.toList_none, List.append_nil]
  cases action with
  | putArtifact digest now => exact silent _ (accounted.same rfl rfl rfl)
  | putCertificate certificate publisher =>
      have dropped := putCertificate_dropsRows contentSize state.store certificate publisher
      exact silent _ (accounted.drop rfl dropped.sequence dropped.rows)
  | putInputVersion record publisher =>
      have dropped := putInputVersion_dropsRows contentSize state.store record publisher
      exact silent _ (accounted.drop rfl dropped.sequence dropped.rows)
  | issueProcessCheckpoint =>
      dsimp only [ticketEvent]
      split
      · rename_i room
        exact accounted.issue room
      · rename_i exhausted
        apply silent
        refine accounted.same rfl ?_ ?_
        · simp [ReuseStore.step, issueProcessCheckpoint, exhausted]
        · simp [ReuseStore.step, issueProcessCheckpoint, exhausted]
  | putProcessCheckpoint ticket record publisher =>
      dsimp only [ticketEvent]
      split
      · rename_i published
        exact accounted.put contentSize published
      · rename_i refused
        apply silent
        exact accounted.same rfl
          (putProcessCheckpoint_sequence contentSize state.store ticket record publisher)
          (putProcessCheckpoint_refused contentSize (Bool.eq_false_iff.mpr refused))
  | claimProcessCheckpoint ticket certificate =>
      dsimp only [ticketEvent, ReuseStore.step]
      split
      · rename_i granted
        exact accounted.grant granted
      · rename_i refused
        exact silent _ (accounted.refuse (Bool.eq_false_iff.mpr refused) _)
  | settleProcessCheckpoint claim consumed =>
      dsimp only [ticketEvent, ReuseStore.step]
      rcases current : state.claims[claim]? with _ | ⟨ticket, _ | _⟩
      · exact silent _ accounted
      · exact accounted.settle consumed current
      · exact silent _ accounted
  | clear =>
      apply silent
      refine accounted.drop rfl rfl ?_
      intro ticket row found
      cases found
  | gc => exact silent _ (accounted.same rfl rfl rfl)
  | readRows collector acceptedTaints =>
      exact silent _ (accounted.collect collector fun _ => .same rfl rfl)
  | readKeys collector => exact silent _ (accounted.collect collector fun _ => .same rfl rfl)
  | readFiles collector limits cutoff =>
      exact silent _ (accounted.collect collector fun _ => .same rfl rfl)
  | collectNext collector =>
      exact silent _ (accounted.collect collector (next_dropsRows contentSize state.store))

variable (contentSize)

/-- The account of a whole run. -/
theorem accounted_run (actions : List Action)
    : Accounted (ticketEvents contentSize actions) (afterActions contentSize actions) := by
  rw [← told_state]
  unfold ticketEvents
  induction actions using List.reverseRecOn with
  | nil => exact accounted_initial
  | append_singleton actions action kept =>
      rw [runAll_snoc]
      exact kept.step action

/-- Tickets are linear under every interleaving. -/
theorem afterActions_ticketsLinear (actions : List Action)
    : TicketsLinear (ticketEvents contentSize actions) (afterActions contentSize actions) :=
  (accounted_run contentSize actions).linear

end Runs

end SpeculativeAction.ReuseStore
