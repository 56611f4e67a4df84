import SpeculativeAction.ActionSemantics.Canonical
import SpeculativeAction.ContentChunks.Model
import SpeculativeAction.StableEquality

/-! The dependencies of a process certificate: their identities, their normal form, and the
digests that are taken of them.
-/

namespace SpeculativeAction.ReuseLookup

open SpeculativeAction.Library SpeculativeAction.StableJson

-- Dependencies

inductive DependencyRole where
  | input
  | executable
  | sharedObject
deriving DecidableEq, Repr

def DependencyRole.text : DependencyRole → JsString
  | .input => units "input"
  | .executable => units "executable"
  | .sharedObject => units "shared_object"

inductive FilesystemObservationField where
  | dev | ino | mode | nlink | uid | gid | rdev | size | blksize | blocks | atimeNs | mtimeNs
  | ctimeNs
deriving DecidableEq, Repr

namespace FilesystemObservationField

/-- `FILESYSTEM_OBSERVATION_FIELDS`, in declaration order. -/
def all : List FilesystemObservationField :=
  [dev, ino, mode, nlink, uid, gid, rdev, size, blksize, blocks, atimeNs, mtimeNs, ctimeNs]

def text : FilesystemObservationField → JsString
  | dev => units "dev"
  | ino => units "ino"
  | mode => units "mode"
  | nlink => units "nlink"
  | uid => units "uid"
  | gid => units "gid"
  | rdev => units "rdev"
  | size => units "size"
  | blksize => units "blksize"
  | blocks => units "blocks"
  | atimeNs => units "atimeNs"
  | mtimeNs => units "mtimeNs"
  | ctimeNs => units "ctimeNs"

end FilesystemObservationField

/-- What a process was observed to depend on. -/
inductive DynamicDependency where
  /-- A non-blocking lock it took: another holder would have refused it. -/
  | lock (path : JsString) (exclusive : Bool)
  | file (path : JsString) (role : DependencyRole) (contentDigest : JsString)
    (metadataDigest : Option JsString) (aliases : Option (List JsString))
  /-- Without `entriesDigest` the run only reached the directory. -/
  | directory (path : JsString) (entriesDigest metadataDigest : Option JsString)
    (excludedEntries : Option (List JsString))
  | absence (path : JsString) (parentEntriesDigest : Option JsString)
    (parentExcludedEntries : Option (List JsString))
  | symlink (path target targetDigest : JsString)
  | metadata (path : JsString) (followSymlinks : Bool) (digest : JsString)
    (fields : Option (List FilesystemObservationField))
  | fd (fd : Binary64) (contentDigest : JsString) (eof : Bool)
deriving DecidableEq

inductive DependencyKind where
  | lock | file | directory | absence | symlink | metadata | fd
deriving DecidableEq, Repr

def DependencyKind.text : DependencyKind → JsString
  | lock => units "lock"
  | file => units "file"
  | directory => units "directory"
  | absence => units "absence"
  | symlink => units "symlink"
  | metadata => units "metadata"
  | fd => units "fd"

/-- The names of the fields in the records that are digested. -/
inductive Field where
  | kind | path | exclusive | role | contentDigest | metadataDigest | aliases | entriesDigest
  | excludedEntries | parentEntriesDigest | parentExcludedEntries | target | targetDigest
  | followSymlinks | digest | fields | fd | eof | metadata | listed | captureParent | weakKey
  | dependencies
deriving DecidableEq, Repr

def Field.text : Field → JsString
  | kind => units "kind"
  | path => units "path"
  | exclusive => units "exclusive"
  | role => units "role"
  | contentDigest => units "contentDigest"
  | metadataDigest => units "metadataDigest"
  | aliases => units "aliases"
  | entriesDigest => units "entriesDigest"
  | excludedEntries => units "excludedEntries"
  | parentEntriesDigest => units "parentEntriesDigest"
  | parentExcludedEntries => units "parentExcludedEntries"
  | target => units "target"
  | targetDigest => units "targetDigest"
  | followSymlinks => units "followSymlinks"
  | digest => units "digest"
  | fields => units "fields"
  | fd => units "fd"
  | eof => units "eof"
  | metadata => units "metadata"
  | listed => units "listed"
  | captureParent => units "captureParent"
  | weakKey => units "weakKey"
  | dependencies => units "dependencies"

/-- A field that is not there. -/
def isMissing : Data → Bool
  | .undefined => true
  | _ => false

/-- An object with the fields that are there. -/
def record (entries : List (Field × Data)) : Data :=
  .object ((entries.filter fun entry => !isMissing entry.2).map fun entry =>
    (entry.1.text, entry.2))

def textData : Option JsString → Data
  | none => .undefined
  | some value => .string value

def textsData (values : List JsString) : Data := .array (values.map .string)

def optionalTexts : Option (List JsString) → Data
  | none => .undefined
  | some values => textsData values

namespace DynamicDependency

def kind : DynamicDependency → DependencyKind
  | lock .. => .lock
  | file .. => .file
  | directory .. => .directory
  | absence .. => .absence
  | symlink .. => .symlink
  | metadata .. => .metadata
  | fd .. => .fd

/-- The record of a dependency, field by field. -/
def entries (dependency : DynamicDependency) : List (Field × Data) :=
  (.kind, .string dependency.kind.text) ::
    match dependency with
    | lock path exclusive => [(.path, .string path), (.exclusive, .bool exclusive)]
    | file path role contentDigest metadataDigest aliases =>
        [(.path, .string path), (.role, .string role.text), (.contentDigest, .string contentDigest),
          (.metadataDigest, textData metadataDigest), (.aliases, optionalTexts aliases)]
    | directory path entriesDigest metadataDigest excludedEntries =>
        [(.path, .string path), (.entriesDigest, textData entriesDigest),
          (.metadataDigest, textData metadataDigest),
          (.excludedEntries, optionalTexts excludedEntries)]
    | absence path parentEntriesDigest parentExcludedEntries =>
        [(.path, .string path), (.parentEntriesDigest, textData parentEntriesDigest),
          (.parentExcludedEntries, optionalTexts parentExcludedEntries)]
    | symlink path target targetDigest =>
        [(.path, .string path), (.target, .string target), (.targetDigest, .string targetDigest)]
    | metadata path followSymlinks digest fields =>
        [(.path, .string path), (.followSymlinks, .bool followSymlinks),
          (.digest, .string digest),
          (.fields, optionalTexts (fields.map (List.map FilesystemObservationField.text)))]
    | fd number contentDigest eof =>
        [(.fd, .number (.finite number)), (.contentDigest, .string contentDigest),
          (.eof, .bool eof)]

def data (dependency : DynamicDependency) : Data := record dependency.entries

-- Validation and normal form

def validLogicalPath (value : JsString) : Bool :=
  decide (value.head? = some (unit '/')) && !value.contains (codeUnit 0)

def validAliases (aliases : List JsString) (target : JsString) : Bool :=
  aliases.contains target && aliases.all validLogicalPath
    && (aliases.zip aliases.tail).all fun pair => decide (pair.1 < pair.2)

def optionalDigest (value : Option JsString) : Bool := value.all ContentChunks.isSha256Digest

def validExcludedEntries (entries : Option (List JsString)) : Bool :=
  entries.all fun entries => entries.all fun entry =>
    !entry.isEmpty && decide (entry ≠ units ".") && decide (entry ≠ units "..")
      && !entry.contains (unit '/') && !entry.contains (codeUnit 0)

def path? : DynamicDependency → Option JsString
  | lock path .. | file path .. | directory path .. | absence path .. | symlink path ..
  | metadata path .. => some path
  | fd .. => none

def validDependencyFields : DynamicDependency → Bool
  | fd number contentDigest _ =>
      ActionSemantics.isSafeCount (.number (.finite number)) 0
        && ContentChunks.isSha256Digest contentDigest
  | file path _ contentDigest metadataDigest aliases =>
      ContentChunks.isSha256Digest contentDigest && optionalDigest metadataDigest
        && aliases.all fun aliases => validAliases aliases path
  | directory _ entriesDigest metadataDigest excludedEntries =>
      (match entriesDigest with
        | none => metadataDigest.isSome
        | some digest => ContentChunks.isSha256Digest digest)
        && optionalDigest metadataDigest && validExcludedEntries excludedEntries
  | absence _ parentEntriesDigest parentExcludedEntries =>
      optionalDigest parentEntriesDigest && validExcludedEntries parentExcludedEntries
  | lock .. => true
  | symlink _ target targetDigest =>
      !target.isEmpty && !target.contains (codeUnit 0) && ContentChunks.isSha256Digest targetDigest
  | metadata _ _ digest fields =>
      ContentChunks.isSha256Digest digest && fields.all fun fields =>
        !fields.isEmpty && decide (joinComma (fields.map FilesystemObservationField.text)
          = joinComma ((FilesystemObservationField.all.filter fields.contains).map
            FilesystemObservationField.text))

def validateDependency (dependency : DynamicDependency) : Bool :=
  dependency.path?.all validLogicalPath && dependency.validDependencyFields

def identity (dependency : DynamicDependency) : JsString :=
  match dependency with
  | fd number .. => units "fd:" ++ JsNumber.text (.finite number)
  | metadata path followSymlinks _ fields =>
      units "metadata:" ++ units (if followSymlinks then "follow" else "nofollow") ++ units ":"
        ++ (fields.map fun fields =>
          joinComma (fields.map FilesystemObservationField.text) ++ units ":").getD []
        ++ path
  | lock path .. | file path .. | directory path .. | absence path .. | symlink path .. =>
      dependency.kind.text ++ units ":" ++ path

/-- `[...new Set(names)].sort()`. -/
def sortNames (names : List JsString) : List JsString := names.dedup.insertionSort (· ≤ ·)

/-- The record with its names in canonical order. -/
def canonical : DynamicDependency → DynamicDependency
  | directory path entriesDigest metadataDigest excludedEntries =>
      directory path entriesDigest metadataDigest (excludedEntries.map sortNames)
  | absence path parentEntriesDigest parentExcludedEntries =>
      absence path parentEntriesDigest (parentExcludedEntries.map sortNames)
  | other => other

/-- Note one dependency; `none` when its evidence is invalid or conflicts. -/
def note (seen : OrderedMap JsString DynamicDependency) (source : DynamicDependency)
    : Option (OrderedMap JsString DynamicDependency) :=
  if !validateDependency source.canonical then none
  else
    match seen.get? source.canonical.identity with
    | none => some (seen.set source.canonical.identity source.canonical)
    | some existing =>
        if stableEqual false existing.data source.canonical.data then
          some (seen.set source.canonical.identity source.canonical)
        else none

def normalizeDependencies (dependencies : List DynamicDependency)
    : Option (List DynamicDependency) :=
  (dependencies.foldlM note OrderedMap.empty).map fun seen =>
    (seen.keys.insertionSort (· ≤ ·)).filterMap seen.get?

-- Digests

/-- `digestObject`, over the SHA-256 of a text in hexadecimal. -/
def digestObject (hash : JsString → JsString) (value : Data) : JsString :=
  units "sha256:" ++ hash ((stableStringify value).getD [])

/-- What of a dependency decides which observation is taken of it. -/
def pathsetEntries (dependency : DynamicDependency) : List (Field × Data) :=
  (.kind, .string dependency.kind.text) ::
    match dependency with
    | fd number .. => [(.fd, .number (.finite number))]
    | file path role _ metadataDigest aliases =>
        [(.path, .string path), (.role, .string role.text),
          (.metadata, .bool metadataDigest.isSome), (.aliases, optionalTexts aliases)]
    | directory path entriesDigest metadataDigest excludedEntries =>
        [(.path, .string path), (.metadata, .bool metadataDigest.isSome),
          (.excludedEntries, textsData (excludedEntries.getD [])),
          (.listed, if entriesDigest.isNone then .bool false else .undefined)]
    | absence path parentEntriesDigest parentExcludedEntries =>
        [(.path, .string path), (.captureParent, .bool parentEntriesDigest.isSome),
          (.parentExcludedEntries, textsData (parentExcludedEntries.getD []))]
    | symlink path .. => [(.path, .string path)]
    | lock path exclusive => [(.path, .string path), (.exclusive, .bool exclusive)]
    | metadata path followSymlinks _ fields =>
        [(.path, .string path), (.followSymlinks, .bool followSymlinks),
          (.fields, optionalTexts (fields.map (List.map FilesystemObservationField.text)))]

def dependencyPathsetKey (hash : JsString → JsString) (dependencies : List DynamicDependency)
    : Option JsString :=
  (normalizeDependencies dependencies).map fun dependencies =>
    digestObject hash (.array (dependencies.map fun dependency => record dependency.pathsetEntries))

def processStrongKey (hash : JsString → JsString) (weakKey : JsString)
    (dependencies : List DynamicDependency)
    : Option JsString :=
  (normalizeDependencies dependencies).map fun dependencies =>
    digestObject hash
      (record [(.weakKey, .string weakKey), (.dependencies, .array (dependencies.map data))])

end DynamicDependency

end SpeculativeAction.ReuseLookup
