import SpeculativeAction.ReuseStore.Model

/-! What protects the payload of a published root from a running collector: its contents
changed after the collector's revision, or the collector still has to take the root itself
before any of them.
-/

namespace SpeculativeAction.ReuseStore

open SpeculativeAction.Library

variable {contentSize : Digest → ℕ}

namespace RootKey

def isCheckpoint : RootKey → Bool
  | checkpoint _ => true
  | _ => false

end RootKey

namespace Store

/-- The payload of a present and published root, claimed or not. -/
def published (store : Store) : RootKey → Option (List ArtifactReference)
  | .certificate record =>
      if record ∈ store.certificates then some record.references else none
  | .input record => if record ∈ store.inputs then some record.references else none
  | .checkpoint ticket =>
      ((store.checkpoints.get? ticket).bind (·.value)).map (·.certificate.references)

def claimed (store : Store) : RootKey → Bool
  | .checkpoint ticket => (store.checkpoints.get? ticket).any (·.claim.isSome)
  | _ => false

/-- The payload of a present, published and unclaimed root. -/
def live (store : Store) (key : RootKey) : Option (List ArtifactReference) :=
  if store.claimed key then none else store.published key

/-- When the object last changed. -/
def changedAt (store : Store) (key : ObjectKey) : ℕ :=
  store.log.revision (.object key)

end Store

/-- The collector's revision test spares this content. -/
def Shielded (store : Store) (revision : ℕ) (digest : Digest) : Prop :=
  changedSince store revision (.artifact digest) = true

/-- The collector's revision test does not spare this root on its own account; only a
checkpoint's row is touched without its payload.
-/
def Steady (store : Store) (revision : ℕ) (key : RootKey) : Prop :=
  key.isCheckpoint = true ∨ store.changedAt (.root key) ≤ revision

/-- The listed rows contain the root, with this payload or as one not worth keeping. -/
def Known (roots : List StoredRoot) (key : RootKey) (references : List ArtifactReference)
    : Prop :=
  (∃ root ∈ roots, root.key = key)
    ∧ ∀ root ∈ roots,
        root.key = key → root.references = none ∨ root.references = some references

/-- The orphan grace lets a collector take the object: only a stored content has an age. -/
def StoredFile.isOld (cutoff : ℚ) (file : StoredFile) : Bool :=
  !file.path || decide (file.modifiedAt ≤ cutoff)

/-- The collector will not take this content of the root without taking the root first. -/
def Guard (store : Store) (collector : Collector) (key : RootKey)
    (references : List ArtifactReference) (digest : Digest)
    : Prop :=
  match collector.phase with
  | .revisionRead =>
      Shielded store collector.revision digest ∨ Steady store collector.revision key
  | .rowsRead roots | .keysRead roots _ =>
      Shielded store collector.revision digest
      ∨ Steady store collector.revision key ∧ Known roots key references
  | .collecting cutoff rows payloads =>
      (∃ payload ∈ payloads, payload.key = .artifact digest ∧ payload.isOld cutoff = true)
      → Shielded store collector.revision digest
        ∨ Steady store collector.revision key ∧ ∃ row ∈ rows, row.key = key

instance (roots : List StoredRoot) (key : RootKey) (references : List ArtifactReference)
    : Decidable (Known roots key references) :=
  inferInstanceAs (Decidable (_ ∧ _))

instance (store : Store) (collector : Collector) (key : RootKey)
    (references : List ArtifactReference) (digest : Digest)
    : Decidable (Guard store collector key references digest) :=
  match collector with
  | ⟨_, .revisionRead, _⟩ => inferInstanceAs (Decidable (_ = true ∨ (_ ∨ _)))
  | ⟨_, .rowsRead _, _⟩ => inferInstanceAs (Decidable (_ = true ∨ (_ ∨ _) ∧ Known _ _ _))
  | ⟨_, .keysRead _ _, _⟩ => inferInstanceAs (Decidable (_ = true ∨ (_ ∨ _) ∧ Known _ _ _))
  | ⟨_, .collecting _ _ _, _⟩ =>
      inferInstanceAs (Decidable ((∃ _ ∈ _, _ ∧ _ = true) → _ = true ∨ (_ ∨ _) ∧ ∃ _ ∈ _, _))

/-- The payload is present and guarded against every collector. -/
structure Sound (contentSize : Digest → ℕ) (state : State) (key : RootKey)
    (references : List ArtifactReference) : Prop where
  present
    : ∀ reference ∈ references, isPresent contentSize state.store.files reference = true
  guarded
    : ∀ collector ∈ state.collectors,
        ∀ reference ∈ references,
          Guard state.store collector key references reference.digest

instance (contentSize : Digest → ℕ) (state : State) (key : RootKey)
    (references : List ArtifactReference)
    : Decidable (Sound contentSize state key references) :=
  decidable_of_iff
    ((∀ reference ∈ references, isPresent contentSize state.store.files reference = true)
      ∧ ∀ collector ∈ state.collectors,
          ∀ reference ∈ references,
            Guard state.store collector key references reference.digest)
    ⟨fun sound => ⟨sound.1, sound.2⟩, fun sound => ⟨sound.present, sound.guarded⟩⟩

/-- The invariant of the store for the roots in scope. -/
structure Safe (contentSize : Digest → ℕ) (scope : RootKey → Prop) (state : State) : Prop where
  revisions
    : ∀ collector ∈ state.collectors, collector.revision ≤ state.store.log.current
  sound
    : ∀ key references,
        scope key
        → state.store.live key = some references
        → Sound contentSize state key references

theorem safe_initial (contentSize : Digest → ℕ) (scope : RootKey → Prop)
    : Safe contentSize scope {} where
  revisions _ member := by cases member
  sound key _ _ found := by cases key <;> cases found

section Transactions

variable {digest : Digest} {references : List ArtifactReference}

/-- A root stays: its payload is still there, no note about it went back. -/
structure Kept (contentSize : Digest → ℕ) (before after : Store) (key : RootKey)
    (references : List ArtifactReference) : Prop where
  present
    : ∀ reference ∈ references,
        isPresent contentSize before.files reference = true
        → isPresent contentSize after.files reference = true
  noted
    : ∀ reference ∈ references,
        before.changedAt (.artifact reference.digest)
          ≤ after.changedAt (.artifact reference.digest)
  steady : key.isCheckpoint = true ∨ after.changedAt (.root key) ≤ before.changedAt (.root key)

/-- A root is published: its payload is there and noted by this transaction. -/
structure Renewed (contentSize : Digest → ℕ) (before after : Store)
    (references : List ArtifactReference) : Prop where
  present
    : ∀ reference ∈ references, isPresent contentSize after.files reference = true
  noted
    : ∀ reference ∈ references,
        before.log.current < after.changedAt (.artifact reference.digest)

/-- The log moved on and the note about clearing did not go back. -/
structure Later (before after : Store) : Prop where
  current : before.log.current ≤ after.log.current
  clear : before.log.revision .clear ≤ after.log.revision .clear

/-- A transaction as the roots see it: every live root was live and stays, or is renewed. -/
structure Evolves (contentSize : Digest → ℕ) (before after : Store) : Prop where
  later : Later before after
  live
    : ∀ key references,
        after.live key = some references
        → before.live key = some references ∧ Kept contentSize before after key references
          ∨ Renewed contentSize before after references

theorem Shielded.kept {before after : Store} {revision : ℕ}
    (shielded : Shielded before revision digest) (later : Later before after)
    (noted : before.changedAt (.artifact digest) ≤ after.changedAt (.artifact digest))
    : Shielded after revision digest := by
  simp only [Shielded, changedSince, Bool.or_eq_true, decide_eq_true_eq] at shielded ⊢
  rcases shielded with cleared | changed
  · exact .inl (Nat.lt_of_lt_of_le cleared later.clear)
  · exact .inr (Nat.lt_of_lt_of_le changed noted)

/-- A guard survives a transaction that keeps the root. -/
theorem Guard.kept {before after : Store} {collector : Collector} {key : RootKey}
    (guarded : Guard before collector key references digest) (later : Later before after)
    (noted : before.changedAt (.artifact digest) ≤ after.changedAt (.artifact digest))
    (steady
      : key.isCheckpoint = true ∨ after.changedAt (.root key) ≤ before.changedAt (.root key))
    : Guard after collector key references digest := by
  have still (unmoved : Steady before collector.revision key)
      : Steady after collector.revision key := by
    rcases steady with checkpoint | same
    · exact .inl checkpoint
    · exact unmoved.imp_right (Nat.le_trans same)
  rcases phase : collector.phase with _ | roots | ⟨roots, keys⟩ | ⟨cutoff, rows, payloads⟩ <;>
    simp only [Guard, phase] at guarded ⊢
  · exact guarded.imp (·.kept later noted) still
  · exact guarded.imp (·.kept later noted) (.imp_left still)
  · exact guarded.imp (·.kept later noted) (.imp_left still)
  · intro held
    exact (guarded held).imp (·.kept later noted) (.imp_left still)

/-- A content noted after a collector's revision is shielded from it. -/
theorem Guard.of_shielded {store : Store} {collector : Collector} {key : RootKey}
    (shielded : Shielded store collector.revision digest)
    : Guard store collector key references digest := by
  rcases phase : collector.phase with _ | roots | ⟨roots, keys⟩ | ⟨cutoff, rows, payloads⟩ <;>
    simp only [Guard, phase]
  · exact .inl shielded
  · exact .inl shielded
  · exact .inl shielded
  · exact fun _ => .inl shielded

/-- A transaction that is not a collector's keeps the state safe. -/
theorem Safe.evolve {scope : RootKey → Prop} {state : State} {after : Store}
    (safe : Safe contentSize scope state) (claims : List Claim) (later : Later state.store after)
    (live
      : ∀ key references,
          scope key
          → after.live key = some references
          → Sound contentSize state key references
              ∧ Kept contentSize state.store after key references
            ∨ Renewed contentSize state.store after references)
    : Safe contentSize scope { state with store := after, claims } where
  revisions collector member :=
    Nat.le_trans (safe.revisions collector member) later.current
  sound key references inScope found := by
    rcases live key references inScope found with ⟨sound, kept⟩ | renewed
    · refine ⟨fun reference member =>
        kept.present reference member (sound.present reference member), ?_⟩
      intro collector member reference referenced
      exact (sound.guarded collector member reference referenced).kept later
        (kept.noted reference referenced) kept.steady
    · refine ⟨renewed.present, ?_⟩
      intro collector member reference referenced
      apply Guard.of_shielded
      simp only [Shielded, changedSince, Bool.or_eq_true, decide_eq_true_eq]
      exact .inr (Nat.lt_of_le_of_lt (safe.revisions collector member)
        (renewed.noted reference referenced))

/-- A transaction that evolves the store keeps every scope safe. -/
theorem Safe.evolves {scope : RootKey → Prop} {state : State} {after : Store}
    (safe : Safe contentSize scope state) (claims : List Claim)
    (evolves : Evolves contentSize state.store after)
    : Safe contentSize scope { state with store := after, claims } := by
  apply safe.evolve claims evolves.later
  intro key references inScope found
  rcases evolves.live key references found with ⟨before, kept⟩ | renewed
  · exact .inl ⟨safe.sound key references inScope before, kept⟩
  · exact .inr renewed

end Transactions

end SpeculativeAction.ReuseStore
