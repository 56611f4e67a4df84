import SpeculativeAction.ReuseStore.Writers

/-! A collection seen from the live roots: what its inventory knows of them, what it decides to
keep, and what each deletion leaves.
-/

namespace SpeculativeAction.ReuseStore

open SpeculativeAction.Library

variable {contentSize : Digest → ℕ}

section Inventory

/-- A kept root brings its whole payload. -/
def Complete (roots : List StoredRoot) (retained : List ObjectKey) : Prop :=
  ∀ key,
    .root key ∈ retained
    → ∃ root ∈ roots,
        root.key = key
        ∧ ∃ references,
            root.references = some references
            ∧ ∀ reference ∈ references, .artifact reference.digest ∈ retained

/-- Considering one more root keeps the decision complete. -/
theorem complete_retainRoot {limits : ProvenanceStoreLimits} {files : OrderedMap Digest ℚ}
    {roots : List StoredRoot} {retention : Retention} {root : StoredRoot}
    (complete : Complete roots retention.retained) (listed : root ∈ roots)
    : Complete roots (retainRoot contentSize limits files retention root).retained := by
  unfold retainRoot
  split
  · exact complete
  rename_i references decoded
  split
  · simp only
    split
    · exact complete
    intro key member
    simp only [List.mem_append, List.mem_cons] at member
    rcases member with earlier | same | artifact
    · obtain ⟨other, listed, rfl, payload, decoded, kept⟩ := complete key earlier
      exact ⟨other, listed, rfl, payload, decoded,
        fun reference member => List.mem_append_left _ (kept reference member)⟩
    · obtain rfl : key = root.key := by simpa using same
      refine ⟨root, listed, rfl, references, decoded, ?_⟩
      intro reference member
      simp only [List.mem_append, List.mem_cons, artifactKeys, List.mem_map]
      exact .inr (.inr ⟨reference, member, rfl⟩)
    · simp [artifactKeys] at artifact
  · exact complete

/-- What a collector keeps is complete, by induction over the roots it considers. -/
theorem complete_retainedKeys (limits : ProvenanceStoreLimits) (files : OrderedMap Digest ℚ)
    (roots : List StoredRoot)
    : Complete roots (retainedKeys contentSize limits files roots) := by
  have considered (pending : List StoredRoot) (retention : Retention)
      (complete : Complete roots retention.retained)
      (listed : ∀ root ∈ pending, root ∈ roots)
      : Complete roots
          (pending.foldl (retainRoot contentSize limits files) retention).retained := by
    induction pending generalizing retention with
    | nil => exact complete
    | cons root rest ih =>
        apply ih
        · exact complete_retainRoot complete (listed root (by simp))
        · intro other member
          exact listed other (List.mem_cons_of_mem _ member)
  apply considered
  · intro key member
    cases member
  · intro root member
    simpa using member

/-- A live root is known to an inventory read now. -/
theorem known_storedRoots {store : Store} {key : RootKey} {references : List ArtifactReference}
    (live : store.live key = some references) (acceptedTaints : List String)
    : Known (storedRoots store acceptedTaints) key references := by
  have published : store.published key = some references := by
    unfold Store.live at live
    split at live
    · cases live
    · exact live
  simp only [Known, storedRoots, List.mem_append, List.mem_map]
  cases key with
  | certificate record =>
      obtain ⟨stored, rfl⟩ : record ∈ store.certificates ∧ record.references = references := by
        simpa [Store.published] using published
      refine ⟨⟨storedCertificate acceptedTaints record, .inl (.inl ⟨record, stored, rfl⟩), rfl⟩,
        ?_⟩
      rintro root ((⟨other, -, rfl⟩ | ⟨other, -, rfl⟩) | ⟨other, -, rfl⟩) same
      · obtain rfl : other = record := by simpa [storedCertificate] using same
        simp only [storedCertificate]
        split <;> simp
      · simp [storedInputVersion] at same
      · unfold storedCheckpoint at same
        split at same <;> cases same
  | input record =>
      obtain ⟨stored, rfl⟩ : record ∈ store.inputs ∧ record.references = references := by
        simpa [Store.published] using published
      refine ⟨⟨storedInputVersion record, .inl (.inr ⟨record, stored, rfl⟩), rfl⟩, ?_⟩
      rintro root ((⟨other, -, rfl⟩ | ⟨other, -, rfl⟩) | ⟨other, -, rfl⟩) same
      · simp [storedCertificate] at same
      · obtain rfl : other = record := by simpa [storedInputVersion] using same
        exact .inr rfl
      · unfold storedCheckpoint at same
        split at same <;> cases same
  | checkpoint ticket =>
      obtain ⟨record, found, rfl⟩ := Option.map_eq_some_iff.mp published
      obtain ⟨row, stored, value⟩ := Option.bind_eq_some_iff.mp found
      have listed := OrderedMap.get?_eq_some_iff.mp stored
      refine ⟨⟨storedCheckpoint ticket row, .inr ⟨(ticket, row), listed, rfl⟩, ?_⟩, ?_⟩
      · simp [storedCheckpoint, value]
      rintro root ((⟨other, -, rfl⟩ | ⟨other, -, rfl⟩) | ⟨⟨other, current⟩, member, rfl⟩) same
      · simp [storedCertificate] at same
      · simp [storedInputVersion] at same
      · obtain rfl : other = ticket := by
          unfold storedCheckpoint at same
          split at same <;> simpa using same
        have unique := stored.symm.trans (OrderedMap.get?_eq_some_iff.mpr member)
        obtain rfl := Option.some.inj unique
        simp [storedCheckpoint, value]

end Inventory

section Collectors

variable {store : Store} {collector : Collector} {key : RootKey}
  {references : List ArtifactReference} {result : ProvenanceStoreGCResult}

/-- The reads of a collector keep its guards: the rows it lists include every live root,
and what it does not keep it takes together with the root.
-/
theorem Guard.readRows {digest : Digest} (guarded : Guard store collector key references digest)
    (live : store.live key = some references) (acceptedTaints : List String)
    : Guard store (collector.readRows store acceptedTaints) key references digest := by
  rcases phase : collector.phase with _ | roots | ⟨roots, keys⟩ | ⟨cutoff, rows, payloads⟩ <;>
    simp only [Collector.readRows, phase]
  · simp only [Guard, phase] at guarded ⊢
    exact guarded.imp_right fun steady => ⟨steady, known_storedRoots live acceptedTaints⟩
  all_goals exact guarded

theorem Guard.readKeys {digest : Digest} (guarded : Guard store collector key references digest)
    : Guard store (collector.readKeys store) key references digest := by
  rcases phase : collector.phase with _ | roots | ⟨roots, keys⟩ | ⟨cutoff, rows, payloads⟩ <;>
    simp only [Collector.readKeys, phase]
  · exact guarded
  · simpa only [Guard, phase] using guarded
  all_goals exact guarded

theorem Guard.readFiles {reference : ArtifactReference}
    (guarded : Guard store collector key references reference.digest)
    (referenced : reference ∈ references) (limits : ProvenanceStoreLimits) (cutoff : ℚ)
    : Guard store (collector.readFiles contentSize store limits cutoff) key references
        reference.digest := by
  rcases phase : collector.phase with _ | roots | ⟨roots, keys⟩ | ⟨cutoff, rows, payloads⟩ <;>
    simp only [Collector.readFiles, phase]
  · exact guarded
  · exact guarded
  · simp only [Guard, phase] at guarded ⊢
    rintro ⟨payload, held, artifact, _⟩
    apply guarded.imp_right
    rintro ⟨steady, ⟨root, listed, rfl⟩, payloads⟩
    refine ⟨steady, root, List.mem_filter.mpr ⟨listed, ?_⟩, rfl⟩
    -- a kept root would have kept the content too
    apply decide_eq_true
    intro kept
    have unkept := (List.mem_filter.mp held).2
    obtain ⟨other, also, same, decoded, known, payload⟩ :=
      complete_retainedKeys limits store.files roots root.key kept
    rcases payloads other also same with none | some
    · cases none.symm.trans known
    · obtain rfl := Option.some.inj (some.symm.trans known)
      rw [artifact] at unkept
      simp [payload reference referenced] at unkept
  · exact guarded

/-- A deletion transaction removes roots from view and shows no new one. -/
theorem collectObject_live {revision : ℕ} {cutoff : ℚ} {file : StoredFile}
    (live
      : (collectObject contentSize store revision cutoff file result).1.live key
        = some references)
    : store.live key = some references
      ∧ (file.key = .root key → changedSince store revision file.key = true) := by
  unfold collectObject at live
  split at live
  · rename_i changed
    exact ⟨live, fun _ => changed⟩
  split at live
  · rename_i digest artifact
    refine ⟨?_, fun same => by rw [artifact] at same; cases same⟩
    split at live
    · split at live
      · exact live
      · exact (live_of_tables store _ rfl rfl rfl key).symm.trans live
    · exact live
  · rename_i removed artifact
    have kept : (deleteRow store removed).live key = some references := live
    rw [live_deleteRow] at kept
    split at kept
    · cases kept
    · rename_i different
      refine ⟨kept, fun same => absurd ?_ different⟩
      rw [artifact] at same
      injection same with same
      exact same.symm

/-- A transaction that writes nothing keeps a root. -/
theorem Kept.idle (store : Store) (key : RootKey) (references : List ArtifactReference)
    : Kept contentSize store (store.commit []) key references := by
  have kept : Kept contentSize store (store.commitObjects []) key references :=
    .commit store store rfl (fun _ => id) (.inr (by simp))
  exact kept

/-- Dropping the note about another object and committing keeps a root. -/
theorem Kept.forget (before written : Store) {removed : ObjectKey} (log : written.log = before.log)
    (present
      : ∀ reference ∈ references,
          isPresent contentSize before.files reference = true
          → isPresent contentSize written.files reference = true)
    (spared : ∀ reference ∈ references, removed ≠ .artifact reference.digest)
    : Kept contentSize before ((written.forget removed).commit []) key references where
  present := present
  noted reference member := by
    simp only [Store.changedAt, Store.commit, Store.forget]
    rw [RevisionLog.revision_commit_of_not_mem _ (by simp),
      RevisionLog.revision_forget_of_ne _ (by simpa using (spared reference member).symm), log]
  steady := by
    right
    simp only [Store.changedAt, Store.commit, Store.forget]
    rw [RevisionLog.revision_commit_of_not_mem _ (by simp), RevisionLog.revision_forget, log]
    split
    · exact Nat.zero_le _
    · exact Nat.le_refl _

theorem later_forget (before written : Store) (log : written.log = before.log) (removed : ObjectKey)
    : Later before ((written.forget removed).commit []) where
  current := by simp [Store.commit, Store.forget, log]
  clear := by
    simp only [Store.commit, Store.forget]
    rw [RevisionLog.revision_commit_of_not_mem _ (by simp),
      RevisionLog.revision_forget_of_ne _ (by simp), log]

theorem collectObject_later (store : Store) (revision : ℕ) (cutoff : ℚ) (file : StoredFile)
    (result : ProvenanceStoreGCResult)
    : Later store (collectObject contentSize store revision cutoff file result).1 := by
  unfold collectObject
  split
  · exact later_commit store store rfl []
  split
  · rename_i digest _
    split
    · split
      · exact later_commit store store rfl []
      · exact later_forget store { store with files := store.files.delete digest } rfl _
    · exact later_forget store store rfl _
  · rename_i removed _
    exact later_forget store (deleteRow store removed) (by cases removed <;> rfl) _

/-- A deletion transaction keeps a root whose payload it may not take. -/
theorem collectObject_kept {revision : ℕ} {cutoff : ℚ} {file : StoredFile}
    (spared
      : ∀ reference ∈ references,
          file.key = .artifact reference.digest
          → file.isOld cutoff = true
          → Shielded store revision reference.digest)
    : Kept contentSize store (collectObject contentSize store revision cutoff file result).1 key
        references := by
  unfold collectObject
  split
  · exact .idle store key references
  rename_i unchanged
  have taken (old : file.isOld cutoff = true) (reference : ArtifactReference)
      (member : reference ∈ references)
      : file.key ≠ .artifact reference.digest := by
    intro same
    exact unchanged (same ▸ spared reference member same old)
  split
  · rename_i digest artifact
    split
    · split
      · exact .idle store key references
      · rename_i stored aged
        have old : file.isOld cutoff = true := by
          simp only [isRecent, Bool.or_eq_true, decide_eq_true_eq, not_or] at aged
          simp [StoredFile.isOld, Rat.not_lt.mp aged.1]
        replace taken := taken old
        refine .forget store { store with files := store.files.delete digest } rfl ?_ taken
        intro reference member present
        simp only [isPresent, Bool.and_eq_true, OrderedMap.has_iff] at present ⊢
        refine ⟨OrderedMap.mem_keys_delete.mpr ⟨?_, present.1⟩, present.2⟩
        rintro rfl
        exact taken reference member artifact
    · rename_i pathless
      exact .forget store store rfl (fun _ _ => id) (taken (by simp [StoredFile.isOld, pathless]))
  · rename_i removed row
    refine .forget store (deleteRow store removed) ?_ ?_ ?_
    · cases removed <;> rfl
    · intro reference _ present
      cases removed <;> exact present
    · intro reference _ same
      cases row.symm.trans same

/-- The collector is about to go past the row of a live checkpoint because the row was
touched since its revision, while it still holds one of its contents, unchanged and old, to
delete.
-/
def passesOver (store : Store) (collector : Collector) : Bool :=
  match collector.phase with
  | .collecting cutoff (row :: _) payloads =>
      row.key.isCheckpoint
        && changedSince store collector.revision (.root row.key)
        && (store.live row.key).any fun references =>
          references.any fun reference =>
            payloads.any (fun payload =>
                payload.key == .artifact reference.digest && payload.isOld cutoff)
              && !changedSince store collector.revision (.artifact reference.digest)
  | _ => false

/-- One deletion keeps every root safe that the collector does not pass over. -/
theorem Safe.collectNext {scope : RootKey → Prop} {state : State} {index : ℕ}
    (safe : Safe contentSize scope state) (member : collector ∈ state.collectors)
    (careful
      : ∀ key, scope key → key.isCheckpoint = true → passesOver state.store collector = false)
    : Safe contentSize scope {
        state with
        store := (collector.next contentSize state.store).1
        collectors := state.collectors.set index (collector.next contentSize state.store).2
      } := by
  -- what a deletion does for all collectors, given what is left of this one
  have deletes (file : StoredFile) (rest : Collector) (cutoff : ℚ)
      (spared
        : ∀ key references,
            scope key
            → state.store.live key = some references
            → ∀ reference ∈ references,
                file.key = .artifact reference.digest
                → file.isOld cutoff = true
                → Shielded state.store collector.revision reference.digest)
      (revision : rest.revision = collector.revision)
      (left
        : ∀ key references,
            scope key
            → state.store.live key = some references
            → (file.key = .root key
                → changedSince state.store collector.revision file.key = true)
            → ∀ reference ∈ references,
                Guard state.store rest key references reference.digest)
      : Safe contentSize scope {
          state with
          store := (collectObject contentSize state.store collector.revision cutoff file
            collector.result).1
          collectors := state.collectors.set index rest
        } := by
    have later : Later state.store
        (collectObject contentSize state.store collector.revision cutoff file
          collector.result).1 :=
      collectObject_later _ _ _ _ _
    refine ⟨?_, ?_⟩
    · intro other listed
      rcases List.mem_or_eq_of_mem_set listed with old | rfl
      · exact Nat.le_trans (safe.revisions other old) later.current
      · rw [revision]
        exact Nat.le_trans (safe.revisions collector member) later.current
    · intro key references inScope live
      obtain ⟨before, changed⟩ := collectObject_live live
      have sound := safe.sound key references inScope before
      have kept : Kept contentSize state.store
          (collectObject contentSize state.store collector.revision cutoff file
            collector.result).1 key references :=
        collectObject_kept (spared key references inScope before)
      refine ⟨fun reference referenced =>
        kept.present reference referenced (sound.present reference referenced), ?_⟩
      intro other listed reference referenced
      have guarded : Guard state.store other key references reference.digest := by
        rcases List.mem_or_eq_of_mem_set listed with old | rfl
        · exact sound.guarded other old reference referenced
        · exact left key references inScope before changed reference referenced
      exact guarded.kept later (kept.noted reference referenced) kept.steady
  -- a collector with nothing to delete changes nothing
  have idle (done : collector.next contentSize state.store = (state.store, collector))
      : Safe contentSize scope {
          state with
          store := (collector.next contentSize state.store).1
          collectors := state.collectors.set index (collector.next contentSize state.store).2
        } := by
    rw [done]
    refine ⟨?_, ?_⟩
    · intro other listed
      rcases List.mem_or_eq_of_mem_set listed with old | rfl
      · exact safe.revisions other old
      · exact safe.revisions other member
    · intro key references inScope live
      have sound := safe.sound key references inScope live
      refine ⟨sound.present, ?_⟩
      intro other listed
      rcases List.mem_or_eq_of_mem_set listed with old | rfl
      · exact sound.guarded other old
      · exact sound.guarded other member
  rcases phase : collector.phase with _ | roots | ⟨roots, keys⟩ | ⟨cutoff, rows, payloads⟩
  case collecting =>
    rcases rows with _ | ⟨row, rows⟩
    · rcases payloads with _ | ⟨payload, payloads⟩
      · exact idle (by simp [Collector.next, phase])
      · -- no row is left, so a held content of a live root is shielded
        have shielded (key : RootKey) (references : List ArtifactReference) (inScope : scope key)
            (live : state.store.live key = some references) (reference : ArtifactReference)
            (referenced : reference ∈ references)
            (held
              : ∃ file ∈ payload :: payloads,
                  file.key = .artifact reference.digest ∧ file.isOld cutoff = true)
            : Shielded state.store collector.revision reference.digest := by
          have guarded :=
            (safe.sound key references inScope live).guarded collector member reference referenced
          simp only [Guard, phase] at guarded
          rcases guarded held with shielded | ⟨-, row, none, -⟩
          · exact shielded
          · cases none
        simp only [Collector.next, phase]
        apply deletes payload
        · intro key references inScope live reference referenced same old
          exact shielded key references inScope live reference referenced
            ⟨payload, by simp, same, old⟩
        · rfl
        · intro key references inScope live _ reference referenced
          simp only [Guard]
          rintro ⟨file, held, same⟩
          exact .inl (shielded key references inScope live reference referenced
            ⟨file, List.mem_cons_of_mem _ held, same⟩)
    · simp only [Collector.next, phase]
      apply deletes row.object
      · intro key references inScope live reference referenced same _
        cases same
      · rfl
      · intro key references inScope live changed reference referenced
        have guarded :=
          (safe.sound key references inScope live).guarded collector member reference referenced
        simp only [Guard, phase] at guarded ⊢
        intro held
        rcases guarded held with shielded | ⟨steady, ahead, listed, same⟩
        · exact .inl shielded
        rcases List.mem_cons.mp listed with rfl | rest
        · -- the collector goes past the root's own row
          left
          have touched := changed (congrArg ObjectKey.root same)
          simp only [StoredRoot.object, same] at touched
          by_contra unshielded
          rcases steady with checkpoint | unmoved
          · obtain ⟨payload, stillHeld, artifact⟩ := held
            have passes : passesOver state.store collector = true := by
              simp only [passesOver, phase, same, checkpoint, touched, live, Option.any_some,
                Bool.true_and, List.any_eq_true, Bool.and_eq_true, Bool.not_eq_true', beq_iff_eq]
              exact ⟨reference, referenced, ⟨payload, stillHeld, artifact⟩,
                by simpa [Shielded] using unshielded⟩
            cases (careful key inScope checkpoint).symm.trans passes
          · simp only [changedSince, Bool.or_eq_true, decide_eq_true_eq, Shielded,
              not_or] at touched unshielded
            rcases touched with cleared | moved
            · exact unshielded.1 cleared
            · exact absurd moved (Nat.not_lt_of_le unmoved)
        · exact .inr ⟨steady, ahead, rest, same⟩
  all_goals exact idle (by simp [Collector.next, phase])

end Collectors

end SpeculativeAction.ReuseStore
