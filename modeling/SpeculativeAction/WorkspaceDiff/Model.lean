import Mathlib.Data.List.Lex
import Mathlib.Data.List.Sort
import SpeculativeAction.Library.OrderedMap
import SpeculativeAction.Library.PosixPath

/-! `diffWorkspaceStructures`: the deltas of regular files joined with two content-free
snapshots of a workspace, into effects ordered for replay.
-/

namespace SpeculativeAction.WorkspaceDiff

open SpeculativeAction.Library
open SpeculativeAction.Library.PosixPath

-- What the host provides

/-- The bytes of a regular file, however they are kept. -/
abbrev ContentVersion := List UInt8

/-- The host: the working directory, its digests, and `localeCompare`, a consistent
comparison.
-/
structure Host where
  cwd : JsString
  contentDigest : ContentVersion → JsString
  digestObject : List JsString → JsString
  localeCompare : JsString → JsString → Ordering
  localeOrder : Std.TransCmp localeCompare

/-- `array.sort()`: by code units. -/
def sortNames (names : List JsString) : List JsString :=
  names.insertionSort fun left right => left ≤ right

/-- The path of `target` from `root`, where it lies within. -/
def relativeFilesystemPath (host : Host) (root target : JsString) : Option JsString :=
  let resolvedRoot := resolvedSegments host.cwd root
  let resolvedTarget := resolvedSegments host.cwd target
  if resolvedRoot <+: resolvedTarget then
    some (joinSep (resolvedTarget.drop resolvedRoot.length))
  else none

/-- Logical names do not depend on the worktree of an execution. -/
structure ExecutionPathProjection where
  sourceRoot : JsString
  workspaceRoot : JsString

def ExecutionPathProjection.toLogical (host : Host) (projection : ExecutionPathProjection)
    (physicalPath : JsString)
    : JsString :=
  let physical := resolve host.cwd physicalPath
  match relativeFilesystemPath host projection.workspaceRoot physical with
  | none => physical
  | some relative => join projection.sourceRoot relative

def sameContent (host : Host) : Option ContentVersion → Option ContentVersion → Bool
  | some left, some right =>
      decide (left.length = right.length
        ∧ host.contentDigest left = host.contentDigest right)
  | left, right => left.isNone && right.isNone

-- Snapshots

structure FileEntry where
  metadataDigest : JsString
  changeDigest : JsString
  mode : ℕ
  size : ℕ
  links : ℕ
  object : Option JsString
  aliases : Option (List JsString)
  modified : Option JsString
  ownership : Option JsString
deriving DecidableEq

structure DirectoryEntry where
  entriesDigest : JsString
  metadataDigest : JsString
  changeDigest : JsString
  mode : ℕ
  uid : ℕ
  gid : ℕ
deriving DecidableEq

structure SymlinkEntry where
  target : JsString
  targetDigest : JsString
  changeDigest : JsString
deriving DecidableEq

structure UnsupportedEntry where
  type : JsString
  changeDigest : JsString
deriving DecidableEq

inductive StructureEntry where
  | file (entry : FileEntry)
  | directory (entry : DirectoryEntry)
  | symlink (entry : SymlinkEntry)
  | unsupported (entry : UnsupportedEntry)
deriving DecidableEq

namespace StructureEntry

def file? : StructureEntry → Option FileEntry
  | .file entry => some entry
  | _ => none

def directory? : StructureEntry → Option DirectoryEntry
  | .directory entry => some entry
  | _ => none

end StructureEntry

/-- Entries by their names relative to the root, whose own name is empty. -/
structure StructureSnapshot where
  root : JsString
  entries : OrderedMap JsString StructureEntry
  complete : Bool

namespace StructureSnapshot

def fileAt (snapshot : StructureSnapshot) (name : JsString) : Option FileEntry :=
  (snapshot.entries.get? name).bind StructureEntry.file?

def directoryAt (snapshot : StructureSnapshot) (name : JsString) : Option DirectoryEntry :=
  (snapshot.entries.get? name).bind StructureEntry.directory?

end StructureSnapshot

/-- Which fields of two entries are compared. -/
inductive EntryIdentity where
  | semantic
  | change
deriving DecidableEq

def workspaceAliasIdentity (host : Host) (aliases : Option (List JsString)) : Option JsString :=
  aliases.map host.digestObject

/-- Entries of one kind with the same identity fields; files also with the same aliases. -/
def sameEntry (host : Host) (identity : EntryIdentity) : StructureEntry → StructureEntry → Bool
  | .file left, .file right =>
      (match identity with
        | .change => decide (left.changeDigest = right.changeDigest)
        | .semantic =>
            decide (left.size = right.size ∧ left.metadataDigest = right.metadataDigest
              ∧ left.object = right.object))
        && decide (workspaceAliasIdentity host left.aliases
          = workspaceAliasIdentity host right.aliases)
  | .directory left, .directory right =>
      match identity with
      | .change => decide (left.changeDigest = right.changeDigest)
      | .semantic =>
          decide (left.entriesDigest = right.entriesDigest
            ∧ left.metadataDigest = right.metadataDigest)
  | .symlink left, .symlink right =>
      match identity with
      | .change => decide (left.changeDigest = right.changeDigest)
      | .semantic => decide (left.targetDigest = right.targetDigest)
  | .unsupported left, .unsupported right =>
      match identity with
      | .change => decide (left.changeDigest = right.changeDigest)
      | .semantic => decide (left.type = right.type)
  | _, _ => false

def sameStructureEntry (host : Host) (left right : Option StructureEntry)
    (identity : EntryIdentity := .semantic)
    : Bool :=
  match left, right with
  | some left, some right => sameEntry host identity left right
  | left, right => left.isNone && right.isNone

def changedRootMetadata (before after : Option StructureEntry) : Option JsString :=
  match before, after with
  | some (.directory before), some (.directory after) =>
      if before.metadataDigest = after.metadataDigest then none
      else some (units "unsupported_workspace_root_metadata")
  | _, _ => some (units "unsupported_workspace_root_transition")

-- Deltas and effects

inductive MutationOperation where
  | writeContents
deriving DecidableEq

/-- A name of the object a change refers to, at the start or at the end of the interval. -/
structure ObjectReference where
  path : JsString
  before : Bool
deriving DecidableEq

/-- One regular file's transition. -/
structure RegularDelta where
  relativePath : JsString
  before : Option ContentVersion
  after : Option ContentVersion
  beforeMode : Option ℕ := none
  afterMode : Option ℕ := none
  afterModified : Option JsString := none
  beforeIdentity : Option JsString := none
  operation : Option MutationOperation := none
  object : Option ObjectReference := none
  aliases : Option (List JsString) := none
  afterAliases : Option (List JsString) := none
deriving DecidableEq

inductive EffectChange where
  | file (delta : RegularDelta)
  | directory (before after : Option DirectoryEntry)
deriving DecidableEq

namespace EffectChange

def isDirectory : EffectChange → Bool
  | .file _ => false
  | .directory _ _ => true

/-- `change.after === undefined`. -/
def removed : EffectChange → Bool
  | .file delta => delta.after.isNone
  | .directory _ after => after.isNone

end EffectChange

structure TransactionEffect where
  logicalPath : JsString
  relativePath : JsString
  change : EffectChange
deriving DecidableEq

structure TransactionDiff where
  effects : List TransactionEffect
  complete : Bool
  reason : Option JsString

-- The order of replay

/-- What one value is ordered by. -/
structure ChangeRank where
  phase : ℕ
  depth : ℤ
  key : JsString
deriving DecidableEq

/-- Files are removed first, then directories, children first; directories are created next,
parents first, and files last.
-/
def changeRank (change : EffectChange) (depth : ℕ) (key : JsString) : ChangeRank where
  phase :=
    if change.isDirectory then if change.removed then 1 else 2
    else if change.removed then 0 else 3
  depth := if change.removed then -(depth : ℤ) else depth
  key := key

def compareRanks (host : Host) (left right : ChangeRank) : Ordering :=
  (compare left.phase right.phase).then
    ((compare left.depth right.depth).then (host.localeCompare left.key right.key))

def RankLe (host : Host) (left right : ChangeRank) : Prop := compareRanks host left right ≠ .gt

instance (host : Host) (left right : ChangeRank) : Decidable (RankLe host left right) :=
  inferInstanceAs (Decidable (_ ≠ _))

def orderWorkspaceChanges {Value : Type} (host : Host) (order : Value → ChangeRank)
    (values : List Value)
    : List Value :=
  if values.length < 2 then values
  else values.insertionSort fun left right => RankLe host (order left) (order right)

def effectRank (effect : TransactionEffect) : ChangeRank :=
  changeRank effect.change (depth effect.relativePath) effect.relativePath

-- Checks of a delta against the snapshots

section Deltas

/-- A reason names what failed and the path it failed at. -/
def failure (label : String) (path : JsString) : JsString := units label ++ unit ':' :: path

def FileEntry.unprovenAliases (entry : FileEntry) : Bool :=
  decide (1 < entry.links ∧ entry.aliases.map List.length ≠ some entry.links)

def beforeFailure (relativePath : JsString) (previous : Option StructureEntry)
    (delta : RegularDelta)
    : Option JsString :=
  match delta.before, previous with
  | none, none => none
  | none, some _ => some (failure "delta_before_missing" relativePath)
  | some before, some (.file previous) =>
      if previous.unprovenAliases then some (failure "unproven_aliases" relativePath)
      else if delta.beforeMode.any (fun mode => decide (mode ≠ previous.mode)) then
        some (failure "delta_before_mode" relativePath)
      else if before.length ≠ previous.size then
        some (failure "delta_before_size" relativePath)
      else none
  | some _, _ => some (failure "delta_before_type" relativePath)

def ownershipChanged (previous : Option StructureEntry) (current : FileEntry) : Bool :=
  match previous with
  | some (.file previous) => decide (previous.ownership ≠ current.ownership)
  | _ => false

def afterFailure (relativePath : JsString) (previous current : Option StructureEntry)
    (delta : RegularDelta)
    : Option JsString :=
  match delta.after, current with
  | none, current =>
      if delta.before.isNone || current.isSome then
        some (failure "delta_delete_shape" relativePath)
      else none
  | some after, some (.file current) =>
      if ownershipChanged previous current then
        some (failure "unsupported_file_ownership" relativePath)
      else if current.unprovenAliases then some (failure "unproven_aliases" relativePath)
      else if delta.afterMode.any (fun mode => decide (mode ≠ current.mode)) then
        some (failure "delta_after_mode" relativePath)
      else if after.length ≠ current.size then some (failure "delta_after_size" relativePath)
      else none
  | some _, _ => some (failure "delta_after_type" relativePath)

def regularDeltaFailure (relativePath : JsString) (previous current : Option StructureEntry)
    (delta : RegularDelta)
    : Option JsString :=
  (beforeFailure relativePath previous delta).or
    (afterFailure relativePath previous current delta)

/-- The deltas by their normalized paths, each within the workspace and named once. -/
def deltasByPath (host : Host)
    : List RegularDelta → OrderedMap JsString RegularDelta
      → Except JsString (OrderedMap JsString RegularDelta)
  | [], byPath => .ok byPath
  | delta :: rest, byPath =>
      let relativePath := normalize delta.relativePath
      if relativePath = [] || isAbsolute relativePath
          || (relativeFilesystemPath host dot relativePath).isNone then
        .error (failure "invalid_delta" delta.relativePath)
      else if byPath.has relativePath then
        .error (failure "duplicate_delta" delta.relativePath)
      else deltasByPath host rest (byPath.set relativePath delta)

end Deltas

-- The effect of one name

/-- What the loop over the names reads. -/
structure DiffContext where
  host : Host
  before : StructureSnapshot
  after : StructureSnapshot
  projection : ExecutionPathProjection
  byPath : OrderedMap JsString RegularDelta
  names : List JsString

namespace DiffContext

variable (context : DiffContext)

def toLogical (physicalPath : JsString) : JsString :=
  context.projection.toLogical context.host physicalPath

/-- `anchors(snapshot).get(object)`: the first name of an object. -/
def anchor (snapshot : StructureSnapshot) (object : JsString) : Option JsString :=
  context.names.find? fun name =>
    (snapshot.fileAt name).any fun entry => decide (entry.object = some object)

/-- The logical names of an entry, sorted. -/
def logicalAliases (root relativePath : JsString) (entry : FileEntry) : List JsString :=
  sortNames ((entry.aliases.getD [join root relativePath]).map context.toLogical)

def withAfterNames (relativePath : JsString) (delta : RegularDelta) : RegularDelta :=
  match context.after.fileAt relativePath with
  | some current =>
      { delta with
        afterModified := current.modified
        afterAliases := some (context.logicalAliases context.after.root relativePath current) }
  | none => delta

def withBeforeNames (relativePath : JsString) (change : RegularDelta) : RegularDelta :=
  match context.before.fileAt relativePath with
  | some previous =>
      { change with
        aliases := some (context.logicalAliases context.before.root relativePath previous) }
  | none => change

/-- The original of the object has other bytes or another modification time. -/
def overwritten (original anchor : JsString) (current : FileEntry) (delta : RegularDelta)
    : Bool :=
  (context.before.fileAt original).any fun source =>
    decide (source.modified ≠ current.modified)
      || !sameContent context.host ((context.byPath.get? anchor).bind RegularDelta.before)
        delta.after

/-- The change names the object it links to, whose anchor must have a delta of its own. -/
def referTo (relativePath anchor : JsString) (original : Bool) (change : RegularDelta)
    : Except JsString RegularDelta :=
  if original || decide (anchor ≠ relativePath) then
    if context.byPath.has anchor then
      .ok
        { change with
          object :=
            some
              { path := context.toLogical (join context.after.root anchor)
                before := original } }
    else .error (failure "object_anchor_missing" anchor)
  else .ok change

def withObject (relativePath object : JsString) (current : FileEntry)
    (delta change : RegularDelta)
    : Except JsString RegularDelta :=
  match context.anchor context.before object with
  | some original =>
      (context.referTo relativePath original true change).map fun change =>
        if context.overwritten original original current delta then
          { change with operation := some .writeContents }
        else change
  | none =>
      -- the name itself carries the object, so it has a first name
      context.referTo relativePath
        ((context.anchor context.after object).getD relativePath) false change

/-- The delta with the names and the object of its file. -/
def fileChange (relativePath : JsString) (delta : RegularDelta) : Except JsString RegularDelta :=
  let change := context.withBeforeNames relativePath (context.withAfterNames relativePath delta)
  match context.after.fileAt relativePath with
  | none => .ok change
  | some current =>
      match current.object with
      | none => .ok change
      | some object =>
          if object = [] then .ok change
          else context.withObject relativePath object current delta change

def effect (relativePath : JsString) (change : EffectChange) : TransactionEffect :=
  { logicalPath := context.toLogical (join context.after.root relativePath)
    relativePath := relativePath
    change := change }

def deltaEffect (relativePath : JsString) (delta : RegularDelta)
    : Except JsString (Option TransactionEffect) :=
  match regularDeltaFailure relativePath (context.before.entries.get? relativePath)
      (context.after.entries.get? relativePath) delta with
  | some reason => .error reason
  | none =>
      (context.fileChange relativePath delta).map fun change =>
        some (context.effect relativePath (.file change))

/-- Without a delta, only a directory may come or go. -/
def structureEffect (relativePath : JsString) : Except JsString (Option TransactionEffect) :=
  if sameStructureEntry context.host (context.before.entries.get? relativePath)
      (context.after.entries.get? relativePath) then .ok none
  else
    match context.before.entries.get? relativePath,
        context.after.entries.get? relativePath with
    | some (.directory previous), some (.directory current) =>
        if previous.metadataDigest ≠ current.metadataDigest then
          .error (failure "unsupported_directory_metadata" relativePath)
        else .ok none
    | none, some (.directory current) =>
        .ok (some (context.effect relativePath (.directory none (some current))))
    | some (.directory previous), none =>
        .ok (some (context.effect relativePath (.directory (some previous) none)))
    | some (.directory _), some _ =>
        .error (failure "unsupported_directory_type_change" relativePath)
    | some _, some (.directory _) =>
        .error (failure "unsupported_directory_type_change" relativePath)
    | _, _ => .error (failure "untracked_inode_transition" relativePath)

def nameEffect (relativePath : JsString) : Except JsString (Option TransactionEffect) :=
  match context.byPath.get? relativePath with
  | some delta => context.deltaEffect relativePath delta
  | none => context.structureEffect relativePath

/-- The loop over the names; the root is passed over. -/
def nameEffects : List JsString → Except JsString (List TransactionEffect)
  | [] => .ok []
  | relativePath :: rest =>
      if relativePath = [] then nameEffects rest
      else
        (context.nameEffect relativePath).bind fun found =>
          (nameEffects rest).map fun more => found.toList ++ more

end DiffContext

-- The diff

section Diff

variable (host : Host) (before after : StructureSnapshot)
variable (projection : ExecutionPathProjection)

def diffContext (byPath : OrderedMap JsString RegularDelta) : DiffContext where
  host := host
  before := before
  after := after
  projection := projection
  byPath := byPath
  names := sortNames (before.entries.keys ++ after.entries.keys ++ byPath.keys).dedup

/-- The effects in the order of replay, or why the diff is incomplete. -/
def diffEffects (deltas : List RegularDelta) : Except JsString (List TransactionEffect) :=
  if !before.complete || !after.complete then .error (units "snapshot_limit")
  else
    match changedRootMetadata (before.entries.get? []) (after.entries.get? []) with
    | some reason => .error reason
    | none =>
        (deltasByPath host deltas .empty).bind fun byPath =>
          let context := diffContext host before after projection byPath
          (context.nameEffects context.names).map (orderWorkspaceChanges host effectRank)

def diffWorkspaceStructures (deltas : List RegularDelta) : TransactionDiff :=
  match diffEffects host before after projection deltas with
  | .ok effects => { effects := effects, complete := true, reason := none }
  | .error reason => { effects := [], complete := false, reason := some reason }

end Diff

end SpeculativeAction.WorkspaceDiff
