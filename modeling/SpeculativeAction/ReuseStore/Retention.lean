import SpeculativeAction.ReuseStore.Collection

/-! Collection never dangles a published root. Certificates and input versions are safe in
every run; a checkpoint's row can be touched without its payload, so its safety asks that
no collector goes past a row so touched and that no claim is given back too late.
-/

namespace SpeculativeAction.ReuseStore

open SpeculativeAction.Library

variable {contentSize : Digest → ℕ} {scope : RootKey → Prop} {state : State}

/-- Giving back this claim shows no checkpoint whose payload is missing or unguarded. -/
def GivesBackSound (contentSize : Digest → ℕ) (state : State) (index : ℕ) : Prop :=
  ∀ claim ∈ state.claims[index]?,
    claim.settled = false
    → heldBy state.store claim.ticket index = true
    → ∀ references ∈ state.store.published (.checkpoint claim.ticket),
        Sound contentSize state (.checkpoint claim.ticket) references

instance (contentSize : Digest → ℕ) (state : State) (index : ℕ)
    : Decidable (GivesBackSound contentSize state index) :=
  inferInstanceAs (Decidable (∀ _ ∈ _, _ → _ → ∀ _ ∈ _, Sound _ _ _ _))

/-- The step leaves every checkpoint its payload: no claim is given back too late, and no
collector goes past a touched row whose payload it still holds.
-/
def Considerate (contentSize : Digest → ℕ) (state : State) : Action → Prop
  | .settleProcessCheckpoint claim false => GivesBackSound contentSize state claim
  | .collectNext index =>
      ∀ collector ∈ state.collectors[index]?, passesOver state.store collector = false
  | _ => True

instance (contentSize : Digest → ℕ) (state : State)
    : (action : Action) → Decidable (Considerate contentSize state action)
  | .settleProcessCheckpoint claim false =>
      inferInstanceAs (Decidable (GivesBackSound contentSize state claim))
  | .collectNext index =>
      inferInstanceAs (Decidable (∀ collector ∈ state.collectors[index]?, _ = _))
  | .settleProcessCheckpoint _ true | .putArtifact .. | .putCertificate ..
  | .putInputVersion .. | .issueProcessCheckpoint | .putProcessCheckpoint ..
  | .claimProcessCheckpoint .. | .clear | .gc | .readRows .. | .readKeys .. | .readFiles .. =>
      .isTrue trivial

/-- A new collection starts with a guard: no row changed after the current revision. -/
theorem Safe.gc (safe : Safe contentSize scope state)
    : Safe contentSize scope {
        state with
        collectors := state.collectors ++ [{ revision := state.store.log.current }]
      } := by
  refine ⟨?_, ?_⟩
  · intro collector listed
    rcases List.mem_append.mp listed with old | new
    · exact safe.revisions collector old
    · obtain rfl := List.mem_singleton.mp new
      exact Nat.le_refl _
  · intro key references inScope live
    have sound := safe.sound key references inScope live
    refine ⟨sound.present, ?_⟩
    intro collector listed reference referenced
    rcases List.mem_append.mp listed with old | new
    · exact sound.guarded collector old reference referenced
    · obtain rfl := List.mem_singleton.mp new
      exact .inr (.inr (state.store.log.revision_le _))

/-- A read changes one collector; its new phase must guard every live root again. -/
theorem Safe.read (safe : Safe contentSize scope state) (index : ℕ) (act : Collector → Collector)
    (revision : ∀ collector, (act collector).revision = collector.revision)
    (guarded
      : ∀ collector key references,
          state.store.live key = some references
          → ∀ reference ∈ references,
              Guard state.store collector key references reference.digest
              → Guard state.store (act collector) key references reference.digest)
    : Safe contentSize scope (state.collect index fun current => (state.store, act current)) := by
  unfold State.collect
  split
  · rename_i current found
    have member := List.mem_of_getElem? found
    refine ⟨?_, ?_⟩
    · intro collector listed
      rcases List.mem_or_eq_of_mem_set listed with old | rfl
      · exact safe.revisions collector old
      · exact revision current ▸ safe.revisions current member
    · intro key references inScope live
      have sound := safe.sound key references inScope live
      refine ⟨sound.present, ?_⟩
      intro collector listed reference referenced
      rcases List.mem_or_eq_of_mem_set listed with old | rfl
      · exact sound.guarded collector old reference referenced
      · exact guarded current key references live reference referenced
          (sound.guarded current member reference referenced)
  · exact safe

/-- Settling a claim only touches the checkpoint's row, so a checkpoint given back must
still have its payload and its guards.
-/
theorem Safe.settle {ticket claim : ℕ} {consumed : Bool} (safe : Safe contentSize scope state)
    (claims : List Claim)
    (careful
      : scope (.checkpoint ticket)
        → consumed = false
        → heldBy state.store ticket claim = true
        → ∀ references,
            state.store.published (.checkpoint ticket) = some references
            → Sound contentSize state (.checkpoint ticket) references)
    : Safe contentSize scope {
        state with
        store := settleProcessCheckpoint state.store ticket claim consumed
        claims
      } := by
  have rows (key : RootKey) (member : ObjectKey.root key ∈ [ObjectKey.root (.checkpoint ticket)])
      : key.isCheckpoint = true := by
    obtain rfl : key = .checkpoint ticket := by simpa using member
    rfl
  have untouched : Safe contentSize scope
      { state with store := state.store.commitObjects [.root (.checkpoint ticket)], claims } :=
    safe.evolves claims (.commit state.store state.store rfl (fun _ => id) rows fun _ _ => id)
  unfold settleProcessCheckpoint
  split
  swap
  · exact untouched
  rename_i held
  split
  · apply safe.evolves claims
    apply Evolves.commit state.store
      { state.store with checkpoints := state.store.checkpoints.delete ticket } rfl
      (fun _ => id) rows
    intro key references live
    have shown := (live_deleteRow state.store (.checkpoint ticket) key).symm.trans live
    split at shown
    · cases shown
    · exact shown
  rename_i given
  unfold setClaim
  split
  swap
  · exact untouched
  rename_i row found
  let shown : Store := {
    state.store with
    checkpoints := state.store.checkpoints.set ticket { row with claim := none }
  }
  apply safe.evolve claims (later_commit state.store shown rfl _)
  intro key references inScope live
  left
  have kept : Kept contentSize state.store
      (shown.commitObjects [.root (.checkpoint ticket)]) key references := by
    apply Kept.commit state.store shown rfl (fun _ => id)
    rcases checkpoint : key.isCheckpoint
    · refine .inr fun member => ?_
      cases checkpoint.symm.trans (rows key member)
    · exact .inl rfl
  refine ⟨?_, kept⟩
  have visible :=
    (live_setCheckpoint state.store ticket { row with claim := none } key).symm.trans live
  split at visible
  · rename_i same
    subst same
    apply careful inScope (by simpa using given) held references
    simpa [Store.published, found] using visible
  · exact safe.sound key references inScope visible

/-- Every step keeps the roots in scope safe, provided it is considerate of checkpoints
when they are in scope.
-/
theorem step_safe (safe : Safe contentSize scope state) (action : Action)
    (careful
      : ∀ key,
          scope key → key.isCheckpoint = true → Considerate contentSize state action)
    : Safe contentSize scope (step contentSize state action) := by
  cases action with
  | putArtifact digest now => exact safe.evolves state.claims (putArtifact_evolves _ _ _)
  | putCertificate certificate publisher =>
      exact safe.evolves state.claims (putCertificate_evolves _ _ _)
  | putInputVersion record publisher =>
      exact safe.evolves state.claims (putInputVersion_evolves _ _ _)
  | issueProcessCheckpoint =>
      exact safe.evolves state.claims (issueProcessCheckpoint_evolves _)
  | putProcessCheckpoint ticket record publisher =>
      exact safe.evolves state.claims (putProcessCheckpoint_evolves _ _ _ _)
  | claimProcessCheckpoint ticket certificate =>
      exact safe.evolves _ (claimProcessCheckpoint_evolves _ _ _ _)
  | settleProcessCheckpoint claim consumed =>
      simp only [step]
      split
      · rename_i ticket open'
        apply safe.settle
        rintro inScope rfl held references published
        exact careful _ inScope rfl ⟨ticket, false⟩ open' rfl held references published
      · exact safe
  | clear => exact safe.evolves state.claims (clear_evolves _)
  | gc => exact safe.gc
  | readRows collector acceptedTaints =>
      apply safe.read collector (fun current => current.readRows state.store acceptedTaints)
      · intro current
        unfold Collector.readRows
        split <;> rfl
      · intro current key references live reference _ guarded
        exact guarded.readRows live acceptedTaints
  | readKeys collector =>
      apply safe.read collector (fun current => current.readKeys state.store)
      · intro current
        unfold Collector.readKeys
        split <;> rfl
      · intro current key references _ reference _ guarded
        exact guarded.readKeys
  | readFiles collector limits cutoff =>
      apply safe.read collector
        (fun current => current.readFiles contentSize state.store limits cutoff)
      · intro current
        unfold Collector.readFiles
        split <;> rfl
      · intro current key references _ reference referenced guarded
        exact guarded.readFiles referenced limits cutoff
  | collectNext index =>
      simp only [step, State.collect]
      split
      · rename_i collector found
        apply safe.collectNext (List.mem_of_getElem? found)
        intro key inScope checkpoint
        exact careful key inScope checkpoint collector found
      · exact safe

/-- Every certificate and input version in its table has its whole payload stored. -/
structure RootsRetained (contentSize : Digest → ℕ) (store : Store) : Prop where
  certificates
    : ∀ certificate ∈ store.certificates,
        ∀ reference ∈ certificate.references,
          isPresent contentSize store.files reference = true
  inputVersions
    : ∀ record ∈ store.inputs,
        ∀ reference ∈ record.references, isPresent contentSize store.files reference = true

/-- Whatever the transactions, reads and collections do to each other, no published
certificate or input version ever dangles.
-/
theorem afterActions_rootsRetained (contentSize : Digest → ℕ) (actions : List Action)
    : RootsRetained contentSize (afterActions contentSize actions).store := by
  have safe : Safe contentSize (fun key => key.isCheckpoint = false)
      (afterActions contentSize actions) := by
    refine runAll_invariant (Safe contentSize _) (safe_initial contentSize _) ?_ actions
    intro state action safe
    apply step_safe safe
    intro key plain checkpoint
    cases plain.symm.trans checkpoint
  refine ⟨?_, ?_⟩
  · intro certificate stored
    apply (safe.sound (.certificate certificate) certificate.references rfl ?_).present
    simp [Store.live, Store.claimed, Store.published, stored]
  · intro record stored
    apply (safe.sound (.input record) record.references rfl ?_).present
    simp [Store.live, Store.claimed, Store.published, stored]

/-- Every present, published and unclaimed checkpoint has its whole payload stored. -/
def CheckpointsRetained (contentSize : Digest → ℕ) (store : Store) : Prop :=
  ∀ ticket record,
    store.checkpoints.get? ticket = some ⟨some record, none⟩
    → ∀ reference ∈ record.certificate.references,
        isPresent contentSize store.files reference = true

/-- No unclaimed checkpoint dangles in a run whose steps are all considerate. -/
theorem afterActions_checkpointsRetained (contentSize : Digest → ℕ) (actions : List Action)
    (considerate : RunAllMeets (step contentSize) (Considerate contentSize) {} actions)
    : CheckpointsRetained contentSize (afterActions contentSize actions).store := by
  have safe : Safe contentSize (fun _ => True) (afterActions contentSize actions) := by
    refine runAll_invariant_of_meets (Safe contentSize _) (Considerate contentSize) ?_
      (safe_initial contentSize _) considerate
    intro state action safe meets
    exact step_safe safe action fun _ _ _ => meets
  intro ticket record stored
  apply (safe.sound (.checkpoint ticket) record.certificate.references trivial ?_).present
  simp [Store.live, Store.claimed, Store.published, stored]

/-- A checkpoint with one stored content. -/
def sampleCheckpoint : StoredProcessCheckpoint where
  certificate := {
    body := "process"
    createdAt := 1
    bytes := 10
    references := [⟨"image", 1⟩]
    continuation := true
  }
  createdAt := 1
  bytes := 10

/-- A published checkpoint under a collector that has listed everything there is. -/
def collectedCheckpoint (limits : ProvenanceStoreLimits) : List Action :=
  [.issueProcessCheckpoint, .putProcessCheckpoint 1 sampleCheckpoint ⟨["image"], 1, 1024⟩,
    .gc, .readRows 0 [], .readKeys 0, .readFiles 0 limits 10]

/-- The checkpoint fits the limits, is claimed while the collector runs and is given back. -/
theorem afterActions_checkpointsRetained_sample
    : CheckpointsRetained (fun _ => 1)
        (afterActions (fun _ => 1)
          (collectedCheckpoint ⟨1, 1024⟩
            ++ [.claimProcessCheckpoint 1 sampleCheckpoint.certificate, .collectNext 0,
              .settleProcessCheckpoint 0 false])).store :=
  afterActions_checkpointsRetained _ _ (by decide)

/-- The checkpoint does not fit the limits and is claimed before the collector reaches its
row: the row is passed over, its content is deleted, and the claim is given back.
-/
theorem claimed_checkpoint_dangles
    : ¬ CheckpointsRetained (fun _ => 1)
        (afterActions (fun _ => 1)
          (collectedCheckpoint ⟨1, 5⟩
            ++ [.claimProcessCheckpoint 1 sampleCheckpoint.certificate, .collectNext 0,
              .collectNext 0, .settleProcessCheckpoint 0 false])).store := by
  intro retained
  have present := retained 1 sampleCheckpoint (by decide) ⟨"image", 1⟩ (by decide)
  revert present
  decide

end SpeculativeAction.ReuseStore
