import SpeculativeAction.PatternBindings.Paths
import SpeculativeAction.ReuseLookup.Dependencies

/-! The observation of a certificate's dependencies on the current file system. -/

namespace SpeculativeAction.ReuseLookup

open SpeculativeAction.Library

inductive ProvenanceTaint where
  | network | ipc | clock | random | pidObservation | descriptorObservation | interactiveIo
  | untrackedFd | confinementObservation | unsupportedSyscall | escapedSandbox | mutableInput
  | traceIncomplete
deriving DecidableEq, Repr

def ProvenanceTaint.text : ProvenanceTaint → JsString
  | network => units "network"
  | ipc => units "ipc"
  | clock => units "clock"
  | random => units "random"
  | pidObservation => units "pid_observation"
  | descriptorObservation => units "descriptor_observation"
  | interactiveIo => units "interactive_io"
  | untrackedFd => units "untracked_fd"
  | confinementObservation => units "confinement_observation"
  | unsupportedSyscall => units "unsupported_syscall"
  | escapedSandbox => units "escaped_sandbox"
  | mutableInput => units "mutable_input"
  | traceIncomplete => units "trace_incomplete"

structure DynamicDependencyCertificate where
  complete : Bool
  dependencies : List DynamicDependency
  taints : List ProvenanceTaint
deriving DecidableEq

-- The file system at one moment

/-- What a failed read says: the object is missing, or something else went wrong. -/
inductive ReadFailure where
  | missing
  | other
deriving DecidableEq, Repr

/-- What one stat of an object says; `identity` lists its `IDENTITY_FIELDS`. -/
structure Stat where
  isFile : Bool
  isDirectory : Bool
  nlink : ℕ
  identity : List ℕ
deriving DecidableEq, Repr

structure FileCapture where
  stat : Stat
  hash : JsString

structure DirectoryEntry where
  type : JsString
  name : JsString

structure EntryCapture where
  info : Stat
  link : Option JsString
  entries : Option (List DirectoryEntry)

/-- What is read of a fixed file system, and the digests that are taken of its stats. -/
structure Filesystem where
  stat : (target : JsString) → (follow : Bool) → Except ReadFailure Stat
  captureFileDigest : JsString → Except ReadFailure FileCapture
  captureFilesystemEntry
    : (target : JsString) → (directory : Bool) → Except ReadFailure EntryCapture
  /-- Whether `/proc/locks` lists a lock of the object that this one would conflict with. -/
  locked : Stat → (exclusive : Bool) → Except ReadFailure Bool
  filesystemMetadataDigest : Stat → JsString
  filesystemObservationDigest : Stat → List FilesystemObservationField → JsString

/-- The current execution world of a lookup. -/
structure ProvenanceValidationContext where
  filesystem : Filesystem
  resolvePath : JsString → Option JsString
  fileDescriptors : Binary64 → Option (JsString × Bool)
  /-- Whether the borrowed view still stands at the end. -/
  verifies : Bool

-- Observations

section Capturing

variable (hash : JsString → JsString) (context : ProvenanceValidationContext)

/-- The physical path of a logical one; an empty one counts as unmapped. -/
def ProvenanceValidationContext.locate (logicalPath : JsString) : Option JsString :=
  (context.resolvePath logicalPath).filter fun physicalPath => !physicalPath.isEmpty

def captureAlias (logicalPath : JsString) : Except ReadFailure Stat :=
  match context.locate logicalPath with
  | none => .error .other
  | some physicalPath => context.filesystem.stat physicalPath false

/-- The states of the aliases, which are read together: one that is not mapped fails at once. Of
several reads that fail the first one listed counts.
-/
def captureAliases (aliases : List JsString) : Except ReadFailure (List Stat) :=
  if aliases.any fun logicalPath => (context.locate logicalPath).isNone then .error .other
  else aliases.mapM (captureAlias context)

/-- A file whose names are no longer its aliases is a plain file entry. -/
def captureFileDependency (physicalPath logicalPath : JsString) (role : DependencyRole)
    (includeMetadata : Bool) (aliases : Option (List JsString))
    : Except ReadFailure DynamicDependency := do
  let content ← context.filesystem.captureFileDigest physicalPath
  let states ← captureAliases context (aliases.getD [])
  let changed := aliases.any fun aliases =>
    decide (content.stat.nlink ≠ aliases.length)
      || states.any fun state => !state.isFile || decide (state.identity ≠ content.stat.identity)
  return .file logicalPath role (units "sha256:" ++ content.hash)
    (if includeMetadata then some (context.filesystem.filesystemMetadataDigest content.stat)
      else none)
    (if changed then none else aliases)

def directoryEntriesDigest (entries : List DirectoryEntry) : JsString :=
  let texts := entries.map fun entry => entry.type ++ codeUnit 0 :: entry.name
  DynamicDependency.digestObject hash (textsData (texts.insertionSort (· ≤ ·)))

structure DirectoryEvidence where
  entriesDigest : Option JsString
  metadataDigest : Option JsString
  excludedEntries : Option (List JsString)

def captureDirectoryEvidence (physicalPath : JsString) (includeMetadata : Bool)
    (excludedEntries : List JsString) (listed : Bool)
    : Except ReadFailure DirectoryEvidence := do
  let entry ← context.filesystem.captureFilesystemEntry physicalPath listed
  if !entry.info.isDirectory || listed && entry.entries.isNone then throw .other
  else return {
    entriesDigest :=
      if listed then
        some (directoryEntriesDigest hash ((entry.entries.getD []).filter fun entry =>
          !excludedEntries.contains entry.name))
      else none
    metadataDigest :=
      if includeMetadata || !listed then
        some (context.filesystem.filesystemMetadataDigest entry.info)
      else none
    excludedEntries :=
      if listed && !excludedEntries.isEmpty then
        some (DynamicDependency.sortNames excludedEntries)
      else none
  }

def captureDirectoryDependency (physicalPath logicalPath : JsString) (includeMetadata : Bool)
    (excludedEntries : List JsString) (listed : Bool)
    : Except ReadFailure DynamicDependency := do
  let evidence ← captureDirectoryEvidence hash context physicalPath includeMetadata excludedEntries
    listed
  return .directory logicalPath evidence.entriesDigest evidence.metadataDigest
    evidence.excludedEntries

/-- Nothing is observed of a path that is there again. -/
def captureAbsenceDependency (physicalPath logicalPath : JsString) (captureParent : Bool)
    (parentExcludedEntries : List JsString)
    : Except ReadFailure (Option DynamicDependency) :=
  match context.filesystem.stat physicalPath false with
  | .ok _ => .ok none
  | .error .other => .error .other
  | .error .missing =>
      if captureParent then do
        let parent ← captureDirectoryEvidence hash context (PatternBindings.dirname physicalPath)
          false parentExcludedEntries true
        return some (.absence logicalPath parent.entriesDigest parent.excludedEntries)
      else .ok (some (.absence logicalPath none none))

def captureSymlinkDependency (physicalPath logicalPath : JsString)
    : Except ReadFailure DynamicDependency := do
  let entry ← context.filesystem.captureFilesystemEntry physicalPath false
  match entry.link with
  | none => throw .other
  | some target => return .symlink logicalPath target (units "sha256:" ++ hash target)

def captureMetadataDependency (physicalPath logicalPath : JsString) (followSymlinks : Bool)
    (fields : Option (List FilesystemObservationField))
    : Except ReadFailure DynamicDependency := do
  let observed ← context.filesystem.stat physicalPath followSymlinks
  return .metadata logicalPath followSymlinks
    (context.filesystem.filesystemObservationDigest observed
      (fields.getD FilesystemObservationField.all))
    fields

/-- A lock still holds while no one holds one that it would conflict with. -/
def probeLock (physicalPath logicalPath : JsString) (exclusive : Bool)
    : Except ReadFailure (Option DynamicDependency) := do
  let info ← context.filesystem.stat physicalPath false
  let held ← context.filesystem.locked info exclusive
  return if info.isFile && !held then some (.lock logicalPath exclusive) else none

/-- One check: current evidence, none, or an error that leaves the whole list undecided. -/
inductive Check where
  | observed (dependency : DynamicDependency)
  | gone
  | failed
deriving DecidableEq

def Check.settle : Except ReadFailure (Option DynamicDependency) → Check
  | .ok (some dependency) => .observed dependency
  | .ok none | .error .missing => .gone
  | .error .other => .failed

/-- The evidence that the observation of a dependency asks for, at its physical path. -/
def capture (physicalPath : JsString) : DynamicDependency
    → Except ReadFailure (Option DynamicDependency)
  | .file path role _ metadataDigest aliases =>
      some <$> captureFileDependency context physicalPath path role metadataDigest.isSome aliases
  | .directory path entriesDigest metadataDigest excludedEntries =>
      some <$> captureDirectoryDependency hash context physicalPath path metadataDigest.isSome
        (excludedEntries.getD []) entriesDigest.isSome
  | .absence path parentEntriesDigest parentExcludedEntries =>
      captureAbsenceDependency hash context physicalPath path parentEntriesDigest.isSome
        (parentExcludedEntries.getD [])
  | .symlink path .. => some <$> captureSymlinkDependency hash context physicalPath path
  | .metadata path followSymlinks _ fields =>
      some <$> captureMetadataDependency context physicalPath path followSymlinks fields
  | .lock path exclusive => probeLock context physicalPath path exclusive
  | .fd .. => .ok none

def check (expected : DynamicDependency) : Check :=
  match expected with
  | .fd number .. =>
      match context.fileDescriptors number with
      | none => .failed
      | some descriptor => .observed (.fd number descriptor.1 descriptor.2)
  | expected =>
      match (expected.path?.bind context.locate) with
      | none => .failed
      | some physicalPath => .settle (capture hash context physicalPath expected)

def Check.observed? : Check → Option DynamicDependency
  | .observed dependency => some dependency
  | _ => none

/-- The current evidence, stale or valid; `none` when the observation is indeterminate. -/
def validateDynamicDependencyCertificate (acceptedTaints : List ProvenanceTaint)
    (certificate : DynamicDependencyCertificate)
    : Option (List DynamicDependency) :=
  let checks := certificate.dependencies.map (check hash context)
  if !certificate.complete || !certificate.taints.all acceptedTaints.contains then none
  else if checks.any fun outcome => decide (outcome = .failed) then none
  else if context.verifies then some (checks.filterMap Check.observed?)
  else none

end Capturing

end SpeculativeAction.ReuseLookup
