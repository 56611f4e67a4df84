import Mathlib.Data.List.Sort
import Mathlib.Data.Rat.Defs
import SpeculativeAction.Library.RevisionLog
import SpeculativeAction.Library.TransitionSystem

/-! The provenance store shared by any number of processes: one metadata database whose
write transactions exclude each other, a content-addressed file store beside it, and
collectors that decide from an old snapshot and delete one object a transaction.
-/

namespace SpeculativeAction.ReuseStore

open SpeculativeAction.Library

section Records

/-- Name of one content in the file store. -/
abbrev Digest := String

structure ArtifactReference where
  digest : Digest
  size : ℕ
deriving DecidableEq, Repr

/-- Metadata of one certificate or input version; `body` is what no operation of the store reads.
The record stands for its id, a digest of its content. A certificate's id leaves its times out
(`createdAt` and how long the process was observed): of two certificates that differ in these only
the code keeps the later row, where the rows here are both kept.
-/
structure Record where
  body : String
  createdAt : ℚ
  bytes : ℕ
  references : List ArtifactReference
  /-- The certificate describes a process that continues from an image. -/
  continuation : Bool := false
  /-- Everything but its taints allows replaying the certificate. -/
  complete : Bool := true
  taints : List String := []
deriving DecidableEq, Repr

def certificateReplayable (certificate : Record) (acceptedTaints : List String) : Bool :=
  certificate.complete && certificate.taints.all (acceptedTaints.contains ·)

/-- A published restart candidate; its payload is what its certificate references. -/
structure StoredProcessCheckpoint where
  certificate : Record
  createdAt : ℚ
  bytes : ℕ
deriving DecidableEq, Repr

/-- One row of `process_checkpoints`: issued without a value, published once, claimed by
at most one holder.
-/
structure CheckpointRow where
  value : Option StoredProcessCheckpoint := none
  claim : Option ℕ := none
deriving DecidableEq, Repr

/-- Key of one metadata row. Checkpoint tickets are the numbers of the store's issuer. -/
inductive RootKey where
  | certificate (record : Record)
  | input (record : Record)
  | checkpoint (ticket : ℕ)
deriving DecidableEq, Repr

/-- An object of the store: a metadata row or a stored content. -/
inductive ObjectKey where
  | root (key : RootKey)
  | artifact (digest : Digest)
deriving DecidableEq, Repr

/-- The keys whose changes the database notes: the objects and `.clear`. -/
inductive Key where
  | clear
  | object (key : ObjectKey)
deriving DecidableEq, Repr

end Records

/-- The committed state shared by every process: the change log, the three metadata tables,
the number of tickets issued and the modification time of each stored content.
-/
structure Store where
  log : RevisionLog Key := .empty
  certificates : List Record := []
  inputs : List Record := []
  checkpoints : OrderedMap ℕ CheckpointRow := .empty
  sequence : ℕ := 0
  files : OrderedMap Digest ℚ := .empty

section Transactions

-- a digest names one content, so it also names its size
variable (contentSize : Digest → ℕ)

/-- Commit the current transaction: the next revision for every touched key. -/
def Store.commit (store : Store) (touched : List Key) : Store :=
  { store with log := store.log.commit touched }

/-- Commit a transaction that touches objects. -/
def Store.commitObjects (store : Store) (touched : List ObjectKey) : Store :=
  store.commit (touched.map .object)

/-- Write one content, or restart the grace of the same content already there. -/
def publishImmutable (files : OrderedMap Digest ℚ) (digest : Digest) (now : ℚ)
    : OrderedMap Digest ℚ :=
  files.set digest now

/-- Publish the referenced contents that the publisher's own capture holds. -/
def materialize (files : OrderedMap Digest ℚ) (references : List ArtifactReference)
    (owned : List Digest) (now : ℚ)
    : OrderedMap Digest ℚ :=
  references.foldl
    (fun files reference =>
      if reference.digest ∈ owned ∧ reference.size = contentSize reference.digest then
        publishImmutable files reference.digest now
      else files)
    files

/-- The content of a reference is stored and has the size the reference says. -/
def isPresent (files : OrderedMap Digest ℚ) (reference : ArtifactReference) : Bool :=
  files.has reference.digest && reference.size == contentSize reference.digest

/-- The closure of the references fits the reader: stored bytes and open contents. -/
def withinBudget (maxBytes : ℕ) (references : List ArtifactReference) : Bool :=
  let digests := (references.map (·.digest)).dedup
  digests.foldl (fun total digest => total + contentSize digest) 0 ≤ maxBytes
    && digests.length ≤ 1024

/-- The objects of a payload. -/
def artifactKeys (references : List ArtifactReference) : List ObjectKey :=
  references.map fun reference => .artifact reference.digest

/-- What a publisher brings: the contents it owns, its clock and its byte limit. -/
structure Publisher where
  owned : List Digest
  now : ℚ
  maxBytes : ℕ
deriving DecidableEq, Repr

/-- One root and its payload in one transaction. It rolls back when the row is refused or
the payload cannot be loaded; contents already written stay as files.
-/
def publishRoot (store : Store) (key : RootKey) (references : List ArtifactReference)
    (publisher : Publisher) (publish : Store → Option Store)
    : Store :=
  match publish store with
  | none => store
  | some written =>
      let files := materialize contentSize store.files references publisher.owned publisher.now
      if references.all (isPresent contentSize files)
          && withinBudget contentSize publisher.maxBytes references then
        ({ written with files }).commitObjects (.root key :: artifactKeys references)
      else
        { store with files }

/-- Store one content outside any publication. -/
def putArtifact (store : Store) (digest : Digest) (now : ℚ) : Store :=
  ({ store with files := publishImmutable store.files digest now }).commitObjects
    [.artifact digest]

/-- `put`: a stored certificate with the same id is the same certificate and is kept. -/
def putCertificate (store : Store) (certificate : Record) (publisher : Publisher) : Store :=
  if certificate.continuation then store
  else
    publishRoot contentSize store (.certificate certificate) certificate.references publisher
      fun store => some
        (if certificate ∈ store.certificates then store
        else { store with certificates := store.certificates ++ [certificate] })

/-- The bounds `decodeInputVersion` puts on a record. -/
def decodableInputVersion (record : Record) : Bool :=
  record.bytes ≤ 8 * 1024 * 1024 && record.references.length ≤ 65536
    && decide (record.references.map (·.digest)).Nodup

def putInputVersion (store : Store) (record : Record) (publisher : Publisher) : Store :=
  if decodableInputVersion record then
    publishRoot contentSize store (.input record) record.references publisher
      fun store => some
        { store with inputs := store.inputs.filter (· ≠ record) ++ [record] }
  else store

/-- Issue the next ticket; neither clearing nor collecting resets the issuer. -/
def issueProcessCheckpoint (store : Store) : Store :=
  if store.sequence + 1 ≤ 9007199254740991 then
    ({
      store with
      sequence := store.sequence + 1
      checkpoints := store.checkpoints.set (store.sequence + 1) {}
    }).commit []
  else store

/-- The bounds `decodeProcessCheckpoint` puts on a record. -/
def decodableProcessCheckpoint (record : StoredProcessCheckpoint) : Bool :=
  record.bytes ≤ 8 * 1024 * 1024 && record.certificate.continuation

/-- Publish an issued ticket, once. -/
def putProcessCheckpoint (store : Store) (ticket : ℕ) (record : StoredProcessCheckpoint)
    (publisher : Publisher)
    : Store :=
  if decodableProcessCheckpoint record then
    publishRoot contentSize store (.checkpoint ticket) record.certificate.references publisher
      fun store =>
        match store.checkpoints.get? ticket with
        | some ⟨none, claim⟩ =>
            some {
              store with
              checkpoints := store.checkpoints.set ticket ⟨some record, claim⟩
            }
        | _ => none
  else store

/-- Whether the row can be claimed for this certificate. -/
def claimable (store : Store) (ticket : ℕ) (certificate : Record) : Bool :=
  match store.checkpoints.get? ticket with
  | some ⟨some record, none⟩ => record.certificate == certificate
  | _ => false

def setClaim (store : Store) (ticket : ℕ) (claim : Option ℕ) : Store :=
  match store.checkpoints.get? ticket with
  | some row => { store with checkpoints := store.checkpoints.set ticket { row with claim } }
  | none => store

/-- The claim transaction; it notes the row's key whether or not it acquires the row. -/
def claimProcessCheckpoint (store : Store) (ticket : ℕ) (certificate : Record) (claim : ℕ)
    : Store :=
  (if claimable store ticket certificate then setClaim store ticket (some claim)
    else store).commitObjects [.root (.checkpoint ticket)]

/-- The row is still held under this claim. -/
def heldBy (store : Store) (ticket claim : ℕ) : Bool :=
  (store.checkpoints.get? ticket).any fun row => row.claim == some claim

/-- Settle a claim: a consumed checkpoint goes, any other is given back. -/
def settleProcessCheckpoint (store : Store) (ticket claim : ℕ) (consumed : Bool) : Store :=
  (if heldBy store ticket claim then
    if consumed then { store with checkpoints := store.checkpoints.delete ticket }
    else setClaim store ticket none
  else store).commitObjects [.root (.checkpoint ticket)]

/-- Remove every root, every content and every note in one transaction. -/
def clear (store : Store) : Store :=
  ({
    log := store.log.forgetAll
    sequence := store.sequence
  } : Store).commit [.clear]

end Transactions

section Collection

variable (contentSize : Digest → ℕ)

/-- One metadata row of an inventory; `references` is absent when the row does not decode
or its certificate may not be replayed.
-/
structure StoredRoot where
  key : RootKey
  bytes : ℕ
  createdAt : ℚ
  references : Option (List ArtifactReference)
deriving DecidableEq, Repr

/-- One object a collector may delete; only a stored content has a path. -/
structure StoredFile where
  key : ObjectKey
  path : Bool
  bytes : ℕ
  modifiedAt : ℚ
deriving DecidableEq, Repr

def storedCertificate (acceptedTaints : List String) (certificate : Record) : StoredRoot where
  key := .certificate certificate
  bytes := certificate.bytes
  createdAt := certificate.createdAt
  references :=
    if certificateReplayable certificate acceptedTaints then some certificate.references
    else none

def storedInputVersion (record : Record) : StoredRoot where
  key := .input record
  bytes := record.bytes
  createdAt := record.createdAt
  references := some record.references

/-- An issued row without a value is inventoried as the text `null`. -/
def storedCheckpoint (ticket : ℕ) (row : CheckpointRow) : StoredRoot :=
  match row.value with
  | some record =>
      {
        key := .checkpoint ticket
        bytes := record.bytes
        createdAt := record.createdAt
        references := some record.certificate.references
      }
  | none => { key := .checkpoint ticket, bytes := 4, createdAt := 0, references := none }

/-- The metadata rows of an inventory, in table order. -/
def storedRoots (store : Store) (acceptedTaints : List String) : List StoredRoot :=
  store.certificates.map (storedCertificate acceptedTaints)
    ++ store.inputs.map storedInputVersion
    ++ store.checkpoints.entries.map fun entry => storedCheckpoint entry.1 entry.2

/-- The noted objects of an inventory. -/
def changedKeys (store : Store) : List ObjectKey :=
  store.log.changes.keys.filterMap fun
    | .clear => none
    | .object key => some key

def storedFiles (store : Store) : List StoredFile :=
  store.files.entries.map fun entry =>
    {
      key := .artifact entry.1
      path := true
      bytes := contentSize entry.1
      modifiedAt := entry.2
    }

structure ProvenanceStoreLimits where
  maxCertificates : ℕ
  maxBytes : ℕ
deriving DecidableEq, Repr

/-- What a collector has decided to keep so far. -/
structure Retention where
  retained : List ObjectKey := []
  retainedBytes : ℕ := 0
  retainedCertificates : ℕ := 0
deriving DecidableEq, Repr

/-- Keep one root and its payload when the payload is complete and both fit the limits. -/
def retainRoot (limits : ProvenanceStoreLimits) (files : OrderedMap Digest ℚ)
    (retention : Retention) (root : StoredRoot)
    : Retention :=
  match root.references with
  | none => retention
  | some references =>
      if references.all (isPresent contentSize files) then
        let addedBytes := references.foldl
          (fun total reference =>
            if .artifact reference.digest ∈ retention.retained then total
            else total + reference.size)
          root.bytes
        if limits.maxCertificates ≤ retention.retainedCertificates
            ∨ limits.maxBytes < retention.retainedBytes + addedBytes then
          retention
        else
          {
            retained := retention.retained ++ .root root.key :: artifactKeys references
            retainedBytes := retention.retainedBytes + addedBytes
            retainedCertificates := retention.retainedCertificates + 1
          }
      else retention

/-- The keys a collector keeps: it considers the roots newest first. -/
def retainedKeys (limits : ProvenanceStoreLimits) (files : OrderedMap Digest ℚ)
    (roots : List StoredRoot)
    : List ObjectKey :=
  ((roots.insertionSort fun left right => right.createdAt ≤ left.createdAt).foldl
    (retainRoot contentSize limits files) {}).retained

/-- A row as an object to delete. -/
def StoredRoot.object (root : StoredRoot) : StoredFile :=
  { key := .root root.key, path := false, bytes := root.bytes, modifiedAt := 0 }

/-- A noted key for which the inventory found neither row nor content. -/
def leftoverObjects (roots : List StoredRoot) (files : List StoredFile)
    (keys : List ObjectKey)
    : List StoredFile :=
  (keys.filter fun key =>
    key ∉ roots.map (·.object.key) ∧ key ∉ files.map (·.key)).map
      fun key => { key, path := false, bytes := 0, modifiedAt := 0 }

structure ProvenanceStoreGCResult where
  removedCertificates : ℕ := 0
  removedArtifacts : ℕ := 0
  removedBytes : ℕ := 0
  removedInputVersions : ℕ := 0
deriving DecidableEq, Repr

/-- The row of a key, when it is in its table. -/
def hasRow (store : Store) : RootKey → Bool
  | .certificate record => decide (record ∈ store.certificates)
  | .input record => decide (record ∈ store.inputs)
  | .checkpoint ticket => store.checkpoints.has ticket

def deleteRow (store : Store) : RootKey → Store
  | .certificate record =>
      { store with certificates := store.certificates.filter (· ≠ record) }
  | .input record => { store with inputs := store.inputs.filter (· ≠ record) }
  | .checkpoint ticket => { store with checkpoints := store.checkpoints.delete ticket }

def countRow (result : ProvenanceStoreGCResult) (bytes : ℕ)
    : RootKey → ProvenanceStoreGCResult
  | .input _ =>
      {
        result with
        removedInputVersions := result.removedInputVersions + 1
        removedBytes := result.removedBytes + bytes
      }
  | .certificate _ | .checkpoint _ =>
      {
        result with
        removedCertificates := result.removedCertificates + 1
        removedBytes := result.removedBytes + bytes
      }

/-- Drop the note about one object. -/
def Store.forget (store : Store) (key : ObjectKey) : Store :=
  { store with log := store.log.forget (.object key) }

/-- The object changed, or the store was cleared, after the collector's revision. -/
def changedSince (store : Store) (revision : ℕ) (key : ObjectKey) : Bool :=
  decide (revision < store.log.revision .clear)
    || decide (revision < store.log.revision (.object key))

/-- The content is younger than the orphan grace, when listed or now. -/
def isRecent (store : Store) (cutoff : ℚ) (file : StoredFile) (digest : Digest) : Bool :=
  decide (cutoff < file.modifiedAt)
    || decide (cutoff < (store.files.get? digest).getD 0)

/-- One deletion transaction of `collect`. -/
def collectObject (store : Store) (revision : ℕ) (cutoff : ℚ) (file : StoredFile)
    (result : ProvenanceStoreGCResult)
    : Store × ProvenanceStoreGCResult :=
  if changedSince store revision file.key then (store.commit [], result)
  else
    match file.key with
    | .artifact digest =>
        if file.path then
          if isRecent store cutoff file digest then (store.commit [], result)
          else
            ((({ store with files := store.files.delete digest }).forget file.key).commit [],
              if store.files.has digest then
                {
                  result with
                  removedArtifacts := result.removedArtifacts + 1
                  removedBytes := result.removedBytes + contentSize digest
                }
              else result)
        else ((store.forget file.key).commit [], result)
    | .root key =>
        (((deleteRow store key).forget file.key).commit [],
          if hasRow store key then countRow result file.bytes key else result)

/-- How far a collection is. The reads of its inventory may be apart; the rows it does not
keep come before the contents and the leftover keys.
-/
inductive CollectionPhase where
  | revisionRead
  | rowsRead (roots : List StoredRoot)
  | keysRead (roots : List StoredRoot) (keys : List ObjectKey)
  | collecting (cutoff : ℚ) (rows : List StoredRoot) (payloads : List StoredFile)
deriving DecidableEq, Repr

/-- One `gc` of some process, with the revision it read first. -/
structure Collector where
  revision : ℕ
  phase : CollectionPhase := .revisionRead
  result : ProvenanceStoreGCResult := {}
deriving DecidableEq, Repr

/-- Read the metadata rows. -/
def Collector.readRows (collector : Collector) (store : Store) (acceptedTaints : List String)
    : Collector :=
  match collector.phase with
  | .revisionRead => { collector with phase := .rowsRead (storedRoots store acceptedTaints) }
  | _ => collector

/-- Read the noted keys. -/
def Collector.readKeys (collector : Collector) (store : Store) : Collector :=
  match collector.phase with
  | .rowsRead roots => { collector with phase := .keysRead roots (changedKeys store) }
  | _ => collector

/-- List the contents, decide what to keep and start deleting the rest. -/
def Collector.readFiles (collector : Collector) (store : Store)
    (limits : ProvenanceStoreLimits) (cutoff : ℚ)
    : Collector :=
  match collector.phase with
  | .keysRead roots keys =>
      let retained := retainedKeys contentSize limits store.files roots
      let files := storedFiles contentSize store
      {
        collector with
        phase := .collecting cutoff
          (roots.filter (·.object.key ∉ retained))
          ((files ++ leftoverObjects roots files keys).filter (·.key ∉ retained))
      }
  | _ => collector

/-- Delete the next object: the rows first, then the payloads. -/
def Collector.next (collector : Collector) (store : Store) : Store × Collector :=
  match collector.phase with
  | .collecting cutoff (row :: rows) payloads =>
      let (after, result) :=
        collectObject contentSize store collector.revision cutoff row.object collector.result
      (after, { collector with phase := .collecting cutoff rows payloads, result })
  | .collecting cutoff [] (payload :: payloads) =>
      let (after, result) :=
        collectObject contentSize store collector.revision cutoff payload collector.result
      (after, { collector with phase := .collecting cutoff [] payloads, result })
  | _ => (store, collector)

end Collection

/-- The settlement callback of one successful claim; only its first call counts. -/
structure Claim where
  ticket : ℕ
  settled : Bool := false
deriving DecidableEq, Repr

/-- The shared store, every collection started and every claim acquired, by any process. -/
structure State where
  store : Store := {}
  collectors : List Collector := []
  claims : List Claim := []

/-- One transaction of some process, or one read of a collector. -/
inductive Action where
  | putArtifact (digest : Digest) (now : ℚ)
  | putCertificate (certificate : Record) (publisher : Publisher)
  | putInputVersion (record : Record) (publisher : Publisher)
  | issueProcessCheckpoint
  | putProcessCheckpoint (ticket : ℕ) (record : StoredProcessCheckpoint)
    (publisher : Publisher)
  | claimProcessCheckpoint (ticket : ℕ) (certificate : Record)
  | settleProcessCheckpoint (claim : ℕ) (consumed : Bool)
  | clear
  | gc
  | readRows (collector : ℕ) (acceptedTaints : List String)
  | readKeys (collector : ℕ)
  | readFiles (collector : ℕ) (limits : ProvenanceStoreLimits) (cutoff : ℚ)
  | collectNext (collector : ℕ)
deriving DecidableEq, Repr

section Steps

variable (contentSize : Digest → ℕ)

/-- A step of one collector. -/
def State.collect (state : State) (collector : ℕ) (act : Collector → Store × Collector)
    : State :=
  match state.collectors[collector]? with
  | some current =>
      {
        state with
        store := (act current).1
        collectors := state.collectors.set collector (act current).2
      }
  | none => state

def step (state : State) : Action → State
  | .putArtifact digest now => { state with store := putArtifact state.store digest now }
  | .putCertificate certificate publisher =>
      { state with store := putCertificate contentSize state.store certificate publisher }
  | .putInputVersion record publisher =>
      { state with store := putInputVersion contentSize state.store record publisher }
  | .issueProcessCheckpoint => { state with store := issueProcessCheckpoint state.store }
  | .putProcessCheckpoint ticket record publisher =>
      {
        state with
        store := putProcessCheckpoint contentSize state.store ticket record publisher
      }
  | .claimProcessCheckpoint ticket certificate =>
      {
        state with
        store :=
          claimProcessCheckpoint state.store ticket certificate state.claims.length
        claims :=
          if claimable state.store ticket certificate then state.claims ++ [{ ticket }]
          else state.claims
      }
  | .settleProcessCheckpoint claim consumed =>
      match state.claims[claim]? with
      | some ⟨ticket, false⟩ =>
          {
            state with
            store := settleProcessCheckpoint state.store ticket claim consumed
            claims := state.claims.set claim ⟨ticket, true⟩
          }
      | _ => state
  | .clear => { state with store := clear state.store }
  | .gc =>
      { state with collectors := state.collectors ++ [{ revision := state.store.log.current }] }
  | .readRows collector acceptedTaints =>
      state.collect collector fun current =>
        (state.store, current.readRows state.store acceptedTaints)
  | .readKeys collector =>
      state.collect collector fun current => (state.store, current.readKeys state.store)
  | .readFiles collector limits cutoff =>
      state.collect collector fun current =>
        (state.store, current.readFiles contentSize state.store limits cutoff)
  | .collectNext collector =>
      state.collect collector fun current => current.next contentSize state.store

/-- The state after any interleaving of transactions and reads. -/
def afterActions (actions : List Action) : State :=
  runAll (step contentSize) {} actions

end Steps

end SpeculativeAction.ReuseStore
