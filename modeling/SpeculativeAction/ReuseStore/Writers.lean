import SpeculativeAction.ReuseStore.Protection

/-! The write transactions of the store, seen as what they do to the live roots: each one keeps
or renews every root it shows.
-/

namespace SpeculativeAction.ReuseStore

open SpeculativeAction.Library

variable {contentSize : Digest → ℕ}
  {touched : List ObjectKey} {references : List ArtifactReference}
  {reference : ArtifactReference}

/-- A root is seen through the three tables only. -/
theorem live_of_tables (before after : Store)
    (certificates : after.certificates = before.certificates)
    (inputs : after.inputs = before.inputs) (checkpoints : after.checkpoints = before.checkpoints)
    (key : RootKey)
    : after.live key = before.live key := by
  cases key with
  | certificate record => simp [Store.live, Store.claimed, Store.published, certificates]
  | input record => simp [Store.live, Store.claimed, Store.published, inputs]
  | checkpoint ticket => simp [Store.live, Store.claimed, Store.published, checkpoints]

@[simp] theorem live_commit (store : Store) (touched : List Key) (key : RootKey)
    : (store.commit touched).live key = store.live key :=
  live_of_tables store _ rfl rfl rfl key

@[simp] theorem live_commitObjects (store : Store) (touched : List ObjectKey) (key : RootKey)
    : (store.commitObjects touched).live key = store.live key :=
  live_of_tables store _ rfl rfl rfl key

theorem changedAt_commitObjects (store : Store) (touched : List ObjectKey) (key : ObjectKey)
    : (store.commitObjects touched).changedAt key
      = if key ∈ touched then store.log.current + 1 else store.changedAt key := by
  simp only [Store.commitObjects, Store.commit, Store.changedAt, RevisionLog.revision_commit]
  simp

theorem changedAt_le_commitObjects (store : Store) (touched : List ObjectKey) (key : ObjectKey)
    : store.changedAt key ≤ (store.commitObjects touched).changedAt key :=
  store.log.revision_le_commit _ _

/-- Committing moves the log on. -/
theorem later_commit (before written : Store) (log : written.log = before.log) (touched : List Key)
    : Later before (written.commit touched) where
  current := by simp [Store.commit, log]
  clear := log ▸ written.log.revision_le_commit touched .clear

/-- A commit keeps a root whose row it does not touch, or any checkpoint. -/
theorem Kept.commit (before written : Store) {key : RootKey} (log : written.log = before.log)
    (present
      : ∀ reference,
          isPresent contentSize before.files reference = true
          → isPresent contentSize written.files reference = true)
    (untouched : key.isCheckpoint = true ∨ .root key ∉ touched)
    : Kept contentSize before (written.commitObjects touched) key references where
  present reference _ := present reference
  noted reference _ := by
    have noted := changedAt_le_commitObjects written touched (.artifact reference.digest)
    simpa only [Store.changedAt, log] using noted
  steady := by
    apply untouched.imp_right
    intro absent
    rw [changedAt_commitObjects, if_neg absent, Store.changedAt, Store.changedAt, log]

/-- A commit renews a root when it touches a payload that is there. -/
theorem Renewed.commit (before written : Store) (log : written.log = before.log)
    (payload
      : ∀ reference ∈ references,
          isPresent contentSize written.files reference = true
          ∧ .artifact reference.digest ∈ touched)
    : Renewed contentSize before (written.commitObjects touched) references where
  present reference member := (payload reference member).1
  noted reference member := by
    rw [changedAt_commitObjects, if_pos (payload reference member).2, log]
    exact Nat.lt_succ_self _

/-- A transaction that publishes nothing and touches no row but a checkpoint's. -/
theorem Evolves.commit (before written : Store) (log : written.log = before.log)
    (present
      : ∀ reference,
          isPresent contentSize before.files reference = true
          → isPresent contentSize written.files reference = true)
    (rows : ∀ key, .root key ∈ touched → key.isCheckpoint = true)
    (live
      : ∀ key references,
          written.live key = some references → before.live key = some references)
    : Evolves contentSize before (written.commitObjects touched) where
  later := later_commit before written log _
  live key references found := by
    rw [live_commitObjects] at found
    refine .inl ⟨live key references found, .commit before written log present ?_⟩
    rcases checkpoint : key.isCheckpoint
    · refine .inr fun member => ?_
      cases checkpoint.symm.trans (rows key member)
    · exact .inl rfl

/-- Writing contents never loses one. -/
theorem isPresent_set {files : OrderedMap Digest ℚ} {digest : Digest} {now : ℚ}
    (present : isPresent contentSize files reference = true)
    : isPresent contentSize (files.set digest now) reference = true := by
  simp only [isPresent, Bool.and_eq_true, OrderedMap.has_iff] at present ⊢
  exact ⟨OrderedMap.mem_keys_set.mpr (.inr present.1), present.2⟩

theorem isPresent_materialize (references : List ArtifactReference) (owned : List Digest) (now : ℚ)
    {files : OrderedMap Digest ℚ} (present : isPresent contentSize files reference = true)
    : isPresent contentSize (materialize contentSize files references owned now) reference
      = true := by
  unfold materialize
  induction references generalizing files with
  | nil => exact present
  | cons first rest ih =>
      apply ih
      simp only
      split
      · exact isPresent_set present
      · exact present

/-- Nothing but files changed. -/
theorem Evolves.files (before : Store) {files : OrderedMap Digest ℚ}
    (present
      : ∀ reference,
          isPresent contentSize before.files reference = true
          → isPresent contentSize files reference = true)
    : Evolves contentSize before { before with files } where
  later := ⟨Nat.le_refl _, Nat.le_refl _⟩
  live key references found := by
    rw [live_of_tables before { before with files } rfl rfl rfl] at found
    exact .inl ⟨found, fun reference _ => present reference, fun _ _ => Nat.le_refl _,
      .inr (Nat.le_refl _)⟩

theorem Evolves.refl (store : Store) : Evolves contentSize store store :=
  .files store fun _ => id

theorem putArtifact_evolves (store : Store) (digest : Digest) (now : ℚ)
    : Evolves contentSize store (putArtifact store digest now) := by
  apply Evolves.commit store { store with files := publishImmutable store.files digest now } rfl
  · intro reference present
    exact isPresent_set present
  · intro key member
    simp at member
  · intro key references found
    exact (live_of_tables store _ rfl rfl rfl key).symm.trans found

/-- Publishing a root with its payload renews it and keeps the others; a refused or
incomplete publication leaves every root as it was.
-/
theorem publishRoot_evolves (store : Store) (key : RootKey) (references : List ArtifactReference)
    (publisher : Publisher) {publish : Store → Option Store}
    (writes
      : ∀ written,
          publish store = some written
          → written.log = store.log
            ∧ (∀ found, written.live key = some found → found = references)
            ∧ ∀ other, other ≠ key → written.live other = store.live other)
    : Evolves contentSize store
        (publishRoot contentSize store key references publisher publish) := by
  have materialized (reference : ArtifactReference)
      : isPresent contentSize store.files reference = true
        → isPresent contentSize
            (materialize contentSize store.files references publisher.owned publisher.now)
            reference = true :=
    isPresent_materialize references publisher.owned publisher.now
  unfold publishRoot
  rcases publication : publish store with _ | written
  · exact .refl store
  obtain ⟨log, own, others⟩ := writes written publication
  simp only
  generalize materialize contentSize store.files references publisher.owned publisher.now = files
    at materialized ⊢
  split
  · rename_i loaded
    simp only [Bool.and_eq_true, List.all_eq_true] at loaded
    refine ⟨later_commit store { written with files } log _, ?_⟩
    intro other found live
    rw [live_commitObjects, live_of_tables written { written with files } rfl rfl rfl] at live
    by_cases same : other = key
    · subst same
      obtain rfl := own found live
      right
      apply Renewed.commit store { written with files } log
      intro reference member
      exact ⟨loaded.1 reference member,
        List.mem_cons_of_mem _ (List.mem_map.mpr ⟨reference, member, rfl⟩)⟩
    · left
      rw [others other same] at live
      refine ⟨live, .commit store { written with files } log materialized (.inr ?_)⟩
      simp [artifactKeys, same]
  · exact .files store materialized

theorem putCertificate_evolves (store : Store) (certificate : Record) (publisher : Publisher)
    : Evolves contentSize store
        (putCertificate contentSize store certificate publisher) := by
  unfold putCertificate
  split
  · exact .refl store
  apply publishRoot_evolves
  intro written publication
  obtain rfl := Option.some.inj publication
  split
  · refine ⟨rfl, ?_, fun _ _ => rfl⟩
    intro found live
    simp_all [Store.live, Store.claimed, Store.published]
  · refine ⟨rfl, ?_, ?_⟩
    · intro found live
      simpa [Store.live, Store.claimed, Store.published, eq_comm] using live
    · intro other different
      cases other with
      | certificate record =>
          have : record ≠ certificate := fun same => different (same ▸ rfl)
          simp [Store.live, Store.claimed, Store.published, this]
      | input record => rfl
      | checkpoint ticket => rfl

theorem putInputVersion_evolves (store : Store) (record : Record) (publisher : Publisher)
    : Evolves contentSize store (putInputVersion contentSize store record publisher) := by
  unfold putInputVersion
  split
  · apply publishRoot_evolves
    intro written publication
    obtain rfl := Option.some.inj publication
    refine ⟨rfl, ?_, ?_⟩
    · intro found live
      simpa [Store.live, Store.claimed, Store.published, eq_comm] using live
    · intro other different
      cases other with
      | certificate record => rfl
      | input other =>
          have : other ≠ record := fun same => different (same ▸ rfl)
          simp [Store.live, Store.claimed, Store.published, this]
      | checkpoint ticket => rfl
  · exact .refl store

/-- Setting one checkpoint row leaves the other roots alone. -/
theorem live_setCheckpoint (store : Store) (ticket : ℕ) (row : CheckpointRow) (key : RootKey)
    : ({ store with checkpoints := store.checkpoints.set ticket row } : Store).live key
      = if key = .checkpoint ticket then
          if row.claim.isSome then none else row.value.map (·.certificate.references)
        else store.live key := by
  cases key with
  | certificate record => rfl
  | input record => rfl
  | checkpoint other =>
      by_cases same : other = ticket
      · subst same
        simp [Store.live, Store.claimed, Store.published, OrderedMap.get?_set]
      · simp [Store.live, Store.claimed, Store.published, OrderedMap.get?_set, same]

/-- A deleted row takes one root with it. -/
theorem live_deleteRow (store : Store) (removed key : RootKey)
    : (deleteRow store removed).live key
      = if key = removed then none else store.live key := by
  cases removed <;> cases key <;>
    simp [deleteRow, Store.live, Store.claimed, Store.published, OrderedMap.get?_delete] <;>
    grind

theorem issueProcessCheckpoint_evolves (store : Store)
    : Evolves contentSize store (issueProcessCheckpoint store) := by
  unfold issueProcessCheckpoint
  split
  · let issued : Store := {
      store with
      sequence := store.sequence + 1
      checkpoints := store.checkpoints.set (store.sequence + 1) {}
    }
    have evolves : Evolves contentSize store (issued.commitObjects []) := by
      apply Evolves.commit store issued rfl (fun _ => id)
      · intro key member
        cases member
      · intro key references found
        rw [live_setCheckpoint { store with sequence := store.sequence + 1 }
          (store.sequence + 1) {} key] at found
        split at found
        · cases found
        · exact found
    exact evolves
  · exact .refl store

theorem putProcessCheckpoint_evolves (store : Store) (ticket : ℕ) (record : StoredProcessCheckpoint)
    (publisher : Publisher)
    : Evolves contentSize store
        (putProcessCheckpoint contentSize store ticket record publisher) := by
  unfold putProcessCheckpoint
  split
  · apply publishRoot_evolves
    intro written publication
    split at publication
    · rename_i claim issued
      obtain rfl := Option.some.inj publication
      refine ⟨rfl, ?_, ?_⟩
      · intro found live
        rw [live_setCheckpoint, if_pos rfl] at live
        split at live
        · cases live
        · exact (Option.some.inj live).symm
      · intro other different
        rw [live_setCheckpoint, if_neg different]
    · cases publication
  · exact .refl store

/-- Claiming hides one root, whether or not the claim is acquired. -/
theorem claimProcessCheckpoint_evolves (store : Store) (ticket : ℕ) (certificate : Record)
    (claim : ℕ)
    : Evolves contentSize store (claimProcessCheckpoint store ticket certificate claim) := by
  have rows (key : RootKey) (member : ObjectKey.root key ∈ [ObjectKey.root (.checkpoint ticket)])
      : key.isCheckpoint = true := by
    obtain rfl : key = .checkpoint ticket := by simpa using member
    rfl
  unfold claimProcessCheckpoint
  split
  · unfold setClaim
    split
    · rename_i row found
      apply Evolves.commit store
        { store with checkpoints := store.checkpoints.set ticket { row with claim } } rfl
        (fun _ => id) rows
      intro key references found
      rw [live_setCheckpoint] at found
      split at found
      · cases found
      · exact found
    · exact .commit store store rfl (fun _ => id) rows fun _ _ => id
  · exact .commit store store rfl (fun _ => id) rows fun _ _ => id

theorem clear_evolves (store : Store) : Evolves contentSize store (clear store) where
  later := by
    constructor
    · exact Nat.le_succ _
    · simp only [clear, Store.commit, RevisionLog.revision_commit]
      exact Nat.le_succ_of_le (store.log.revision_le .clear)
  live key references found := by
    cases key <;> cases found

end SpeculativeAction.ReuseStore
